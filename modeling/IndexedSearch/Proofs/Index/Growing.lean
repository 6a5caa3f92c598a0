import IndexedSearch.Proofs.Catalog.Names
import IndexedSearch.Proofs.Index.Priority

/-!
# Catalogs that grow

Indexes that carry only some of the attributes are never selected, so a catalog may do without them.
An index that is selected stays selected when further ones are declared behind those of its kind:
local indexes at any time, and global ones unless a local index was selected, before which they
would be tried.
-/

namespace IndexedSearch

namespace Schema

/-- The schema with those of its secondary indexes that carry all attributes. -/
def unrestricted (schema : Schema) : Schema :=
  { schema with
    globalIndexes := schema.globalIndexes.filter fun index ↦ index.projection = .all
    localIndexes := schema.localIndexes.filter fun index ↦ index.projection = .all }

/-- The schema with further secondary indexes, each behind those of its kind. -/
def extended (schema : Schema) (globals : List GlobalIndex) (locals : List LocalIndex) : Schema :=
  { schema with
    globalIndexes := schema.globalIndexes ++ globals
    localIndexes := schema.localIndexes ++ locals }

end Schema

namespace Index

open IndexedSearch.Filter (Clause)

variable {schema other : Schema} {tree : Filter.Tree Clause} {selection : Selection}

/-! ## What a candidate gives -/

theorem keyTerms_congr (h : schema.attributes = other.attributes) :
    keyTerms schema tree = keyTerms other tree := by
  have hterm : keyTerm? schema = keyTerm? other := by
    funext terms name
    unfold keyTerm? isOnAttribute
    rw [Schema.physicalName_congr h]
  funext descriptor
  rw [keyTerms, hterm]
  rfl

/-- Of a schema, only the attributes count for what a candidate gives. -/
theorem selection?_congr (h : schema.attributes = other.attributes) :
    selection? schema tree = selection? other tree := by
  funext descriptor
  rw [selection?, keyTerms_congr h]
  rfl

theorem select?_eq_findSome?_candidates (schema : Schema) (tree : Filter.Tree Clause) :
    select? schema tree = (candidates schema).findSome? (selection? schema tree) := by
  rw [select?_eq_findSome?, map_snd_ranked]

/-! ## The candidates by kind -/

/-- The descriptors of the global indexes that carry all attributes. -/
def globalCandidates (indexes : List GlobalIndex) : List Descriptor :=
  (indexes.filter fun index ↦ index.projection.isAll).map .global

/-- The descriptors of the local indexes that carry all attributes. -/
def localCandidates (schema : Schema) (indexes : List LocalIndex) : List Descriptor :=
  (indexes.filter fun index ↦ index.projection.isAll).map (.localIndex schema)

theorem candidates_eq (schema : Schema) :
    candidates schema = .primary schema :: globalCandidates schema.globalIndexes ++
      localCandidates schema schema.localIndexes := rfl

theorem kind_of_mem_localCandidates {indexes : List LocalIndex} {descriptor : Descriptor}
    (h : descriptor ∈ localCandidates schema indexes) : descriptor.kind = .localIndex := by
  obtain ⟨index, _, rfl⟩ := List.mem_map.1 h
  rfl

/-- Indexes that carry only some of the attributes are no candidates anyway. -/
theorem candidates_unrestricted (schema : Schema) :
    candidates schema.unrestricted = candidates schema := by
  have hall (projection : Projection) :
      (projection.isAll && decide (projection = .all)) = projection.isAll := by
    cases projection <;> rfl
  unfold candidates Schema.unrestricted
  simp only [List.filter_filter, hall]
  rfl

/-- Further global indexes are tried between the global and the local ones, and further local
indexes at the end. -/
theorem candidates_extended (schema : Schema) (globals : List GlobalIndex)
    (locals : List LocalIndex) :
    candidates (schema.extended globals locals) =
      .primary schema :: globalCandidates schema.globalIndexes ++ (globalCandidates globals ++
        (localCandidates schema schema.localIndexes ++ localCandidates schema locals)) := by
  calc
    _ = .primary schema :: globalCandidates (schema.globalIndexes ++ globals) ++
        localCandidates schema (schema.localIndexes ++ locals) := rfl
    _ = _ := by
      rw [globalCandidates, localCandidates, List.filter_append, List.map_append,
        List.filter_append, List.map_append, ← List.cons_append, List.append_assoc]
      rfl

/-! ## What is selected -/

theorem select?_unrestricted (schema : Schema) (tree : Filter.Tree Clause) :
    select? schema.unrestricted tree = select? schema tree := by
  have hsame : selection? schema.unrestricted tree = selection? schema tree := selection?_congr rfl
  rw [select?_eq_findSome?_candidates, select?_eq_findSome?_candidates, candidates_unrestricted,
    hsame]

/-- An index that is selected stays selected, unless it is a local one and there are further global
indexes. -/
theorem select?_extended (h : select? schema tree = some selection) {globals : List GlobalIndex}
    (hkind : selection.descriptor.kind = .localIndex → globals = []) (locals : List LocalIndex) :
    select? (schema.extended globals locals) tree = some selection := by
  have hsame : selection? (schema.extended globals locals) tree = selection? schema tree :=
    selection?_congr rfl
  rw [select?_eq_findSome?_candidates] at h
  rw [select?_eq_findSome?_candidates, hsame, candidates_extended]
  have hcandidates := h
  rw [candidates_eq, List.findSome?_append, Option.or_eq_some_iff] at hcandidates
  rcases hcandidates with hglobal | ⟨-, hlocal⟩
  · exact (List.prefix_append _ _).findSome?_eq_some hglobal
  · -- Nothing before the local indexes is usable, so nothing may be added there.
    obtain ⟨descriptor, hmem, hselection⟩ := List.exists_of_findSome?_eq_some hlocal
    obtain ⟨-, rfl⟩ := selection?_eq_some_iff.1 hselection
    have hempty : globalCandidates [] = [] := rfl
    rw [hkind (kind_of_mem_localCandidates hmem), hempty, List.nil_append, ← List.append_assoc,
      ← candidates_eq]
    exact (List.prefix_append _ _).findSome?_eq_some h

end Index

end IndexedSearch
