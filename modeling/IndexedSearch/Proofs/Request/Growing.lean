import IndexedSearch.Proofs.Index.Growing
import IndexedSearch.Proofs.Request.Choosing

/-!
# Requests and catalogs that grow

With an automatic choice of the index, indexes that carry only some of the attributes play no part
in a request or in what is wrong with it. Where an index is selected, neither do indexes that are
declared behind those of its kind, save for global ones where a local index was selected.
-/

namespace IndexedSearch

open IndexedSearch.Filter (Clause)

variable {schema other : Schema} {tree : Filter.Tree Clause} {options : Options}

theorem Index.resolve_automatic_congr (h : select? schema tree = select? other tree) :
    Choice.automatic.resolve schema tree = Choice.automatic.resolve other tree := by
  rw [Choice.resolve, Choice.resolve, h]

namespace Request

/-- With an automatic choice, schemas of one table with the same attributes differ only by what is
selected. -/
theorem forFilter_congr_of_select? (hautomatic : options.index = .automatic)
    (hname : schema.name = other.name) (hattributes : schema.attributes = other.attributes)
    (hselect : Index.select? schema tree = Index.select? other tree) :
    forFilter schema tree options = forFilter other tree options := by
  have h := forFilter_congr hname hattributes (Index.resolve_automatic_congr hselect) options
  rwa [← hautomatic] at h

/--
Without the indexes that carry only some of the attributes, the outcome is the same. Where an index
is selected, it is still selected, and the outcome is the same, with further indexes behind the
others: any local ones, and, unless a local index is selected, any global ones.
-/
theorem forFilter_unrestricted_and_extended (schema : Schema) (tree : Filter.Tree Clause)
    (hautomatic : options.index = .automatic) :
    forFilter schema.unrestricted tree options = forFilter schema tree options ∧
      ∀ selection ∈ Index.select? schema tree, ∀ globals locals,
        (selection.descriptor.kind = .localIndex → globals = []) →
        Index.select? (schema.extended globals locals) tree = Index.select? schema tree ∧
          forFilter (schema.extended globals locals) tree options =
            forFilter schema tree options := by
  constructor
  · exact forFilter_congr_of_select? hautomatic rfl rfl (Index.select?_unrestricted schema tree)
  · intro selection hselection globals locals hkind
    have hsame : Index.select? (schema.extended globals locals) tree =
        Index.select? schema tree := by
      rw [Option.mem_def.1 hselection]
      exact Index.select?_extended hselection hkind locals
    exact ⟨hsame, forFilter_congr_of_select? hautomatic rfl rfl hsame⟩

open Example in
theorem forFilter_unrestricted_and_extended_example :
    Example.options.index = .automatic ∧
      forFilter catalog.unrestricted stateTree Example.options = .ok stateRequest ∧
      Index.select? (catalog.extended [⟨"states", "status", none, .all⟩] [⟨"notes", "note", .all⟩])
        stateTree = some stateSelection ∧
      forFilter (catalog.extended [⟨"states", "status", none, .all⟩] [⟨"notes", "note", .all⟩])
        stateTree Example.options = .ok stateRequest := by
  have hautomatic : Example.options.index = .automatic := rfl
  have hboth := forFilter_unrestricted_and_extended catalog stateTree hautomatic
  have hextended := hboth.2 stateSelection select?_stateTree [⟨"states", "status", none, .all⟩]
    [⟨"notes", "note", .all⟩] nofun
  exact ⟨hautomatic, hboth.1.trans forFilter_stateTree, hextended.1.trans select?_stateTree,
    hextended.2.trans forFilter_stateTree⟩

end Request

end IndexedSearch
