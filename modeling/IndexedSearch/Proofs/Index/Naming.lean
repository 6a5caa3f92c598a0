import IndexedSearch.Proofs.Catalog.Names
import IndexedSearch.Proofs.Index.Priority

/-!
# Choosing an index by name

A name leads to an index just if some index of the schema has it. In an accepted schema it leads to
that very index, a global or a local one. The caller who names or gives the index that would have
been selected therefore gets what the automatic choice would have led to: the same index with the
same conditions on its key.
-/

namespace IndexedSearch.Index

open IndexedSearch.Filter (Clause)

variable {schema : Schema} {tree : Filter.Tree Clause} {selection : Selection} {name : String}

namespace Descriptor

theorem named_global (h : schema.indexNames.Nodup) {index : GlobalIndex}
    (hindex : index ∈ schema.globalIndexes) : named schema index.name = .ok (global index) := by
  rw [named, Schema.globalIndex?_of_mem h hindex]
  rfl

theorem named_localIndex (h : schema.indexNames.Nodup) {index : LocalIndex}
    (hindex : index ∈ schema.localIndexes) :
    named schema index.name = .ok (localIndex schema index) := by
  rw [named, Schema.globalIndex?_eq_none_of_mem_localIndexes h hindex,
    Schema.localIndex?_of_mem h hindex]
  rfl

/-- Only a name that no index has leads nowhere, and that is what the error says. -/
theorem named_eq_error_iff {error : SchemaError} :
    named schema name = .error error ↔
      name ∉ schema.indexNames ∧ SchemaError.indexNotFound name = error := by
  unfold Schema.indexNames
  rw [List.mem_append, not_or, ← Schema.globalIndex?_eq_none_iff,
    ← Schema.localIndex?_eq_none_iff, named]
  split
  · rename_i index hglobal
    rw [hglobal]
    exact iff_of_false nofun nofun
  · rename_i hglobal
    rw [hglobal]
    split
    · rename_i index hlocal
      rw [hlocal]
      exact iff_of_false nofun nofun
    · rename_i hlocal
      rw [hlocal]
      simp [throw_eq_error_iff]

end Descriptor

/-! ## The selected index -/

/-- The index that is selected is one that the schema offers and the filter can use. -/
theorem exists_offers_of_select? (h : select? schema tree = some selection) :
    ∃ rank, Offers schema rank selection.descriptor ∧
      IsUsable schema tree selection.descriptor := by
  rw [select?_eq_findSome?] at h
  obtain ⟨descriptor, hmem, hselection⟩ := List.exists_of_findSome?_eq_some h
  obtain ⟨⟨rank, _⟩, hplace, rfl⟩ := List.mem_map.1 hmem
  obtain ⟨husable, rfl⟩ := selection?_eq_some_iff.1 hselection
  exact ⟨rank, mem_ranked_iff.1 hplace, husable⟩

/-- In an accepted schema, the name of a secondary index that is selected leads to that index. -/
theorem named_of_select? (haccepted : schema.IsAccepted)
    (h : select? schema tree = some selection) (hkind : selection.descriptor.kind ≠ .primary)
    (hname : name ∈ selection.descriptor.name) :
    Descriptor.named schema name = .ok selection.descriptor := by
  obtain ⟨rank, hoffers, -⟩ := exists_offers_of_select? h
  have hunique := haccepted.nodup_indexNames
  cases hselected : selection.descriptor with
  | mk kind name? hash range =>
    rw [hselected] at hoffers hkind hname
    cases hoffers with
    | primary => exact absurd rfl hkind
    | global hindex =>
      cases hname
      exact Descriptor.named_global hunique (List.mem_of_getElem? hindex)
    | localIndex hindex =>
      cases hname
      exact Descriptor.named_localIndex hunique (List.mem_of_getElem? hindex)

/-! ## The selected index as a choice of the caller -/

theorem resolve_automatic_of_select? (h : select? schema tree = some selection) :
    Choice.automatic.resolve schema tree =
      .ok ⟨selection.descriptor, keyTerms schema tree selection.descriptor⟩ := by
  rw [Choice.resolve, h, ← keys_of_select? h]
  rfl

/-- Giving the index that is selected is the same as leaving the choice open. -/
theorem resolve_given_of_select? (h : select? schema tree = some selection) :
    (Choice.given selection.descriptor).resolve schema tree =
      Choice.automatic.resolve schema tree := by
  rw [resolve_automatic_of_select? h]
  rfl

/-- In an accepted schema, naming the secondary index that is selected is the same, too. -/
theorem resolve_named_of_select? (haccepted : schema.IsAccepted)
    (h : select? schema tree = some selection) (hkind : selection.descriptor.kind ≠ .primary)
    (hname : name ∈ selection.descriptor.name) :
    (Choice.named name).resolve schema tree = Choice.automatic.resolve schema tree := by
  rw [resolve_automatic_of_select? h, Choice.resolve, named_of_select? haccepted h hkind hname]
  rfl

end IndexedSearch.Index
