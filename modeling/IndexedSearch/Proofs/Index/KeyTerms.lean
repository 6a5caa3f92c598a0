import IndexedSearch.Index.Selection
import IndexedSearch.Proofs.Outcome

/-!
# Where key conditions come from

Whatever index is chosen, and by whomever, the conditions on its key are conditions that every match
of the filter has to satisfy.
-/

namespace IndexedSearch.Index

open IndexedSearch.Filter (Clause Term)

variable {schema : Schema} {tree : Filter.Tree Clause}

namespace KeyTerms

/-- The conditions are among the given ones. -/
structure AreFrom (keys : KeyTerms) (terms : List Term) : Prop where
  hash : ∀ term ∈ keys.hash, term ∈ terms
  range : ∀ term ∈ keys.range, term ∈ terms

theorem areFrom_none (terms : List Term) : none.AreFrom terms := by
  constructor
  · intro term hterm
    cases hterm
  · intro term hterm
    cases hterm

end KeyTerms

theorem mem_of_keyTerm? {terms : List Term} {name : String} {term : Term}
    (h : keyTerm? schema terms name = some term) : term ∈ terms := by
  rw [keyTerm?] at h
  split at h
  · exact (List.mem_filter.1 (List.mem_of_head? h)).1
  · cases h

theorem areFrom_keyTerms (descriptor : Descriptor) :
    (keyTerms schema tree descriptor).AreFrom tree.terms := by
  constructor
  · intro term hterm
    exact mem_of_keyTerm? hterm
  · intro term hterm
    obtain ⟨range, _, hterm⟩ := Option.bind_eq_some_iff.1 hterm
    exact mem_of_keyTerm? hterm

theorem keys_of_select? {selection : Selection} (h : select? schema tree = some selection) :
    selection.keys = keyTerms schema tree selection.descriptor := by
  obtain ⟨descriptor, _, h⟩ := List.exists_of_findSome?_eq_some h
  dsimp only at h
  split at h
  · cases h
    rfl
  · cases h

/-- Following the automatic choice ends with the index that is selected, if there is one. -/
theorem descriptor_of_resolve_automatic {resolution : Resolution}
    (h : Choice.automatic.resolve schema tree = .ok resolution) :
    resolution.descriptor = (select? schema tree).map Selection.descriptor := by
  rw [Choice.resolve] at h
  split at h
  · rename_i selection hselection
    cases h
    rw [hselection]
    rfl
  · rename_i hnone
    cases h
    rw [hnone]
    rfl

/-- Whatever the choice, the conditions found are those for the index found. -/
theorem keys_of_resolve {choice : Choice} {resolution : Resolution}
    (h : choice.resolve schema tree = .ok resolution) :
    resolution.keys = (resolution.descriptor.map (keyTerms schema tree)).getD .none := by
  cases choice with
  | automatic =>
    rw [Choice.resolve] at h
    split at h
    · rename_i selection hselection
      cases h
      exact keys_of_select? hselection
    · cases h
      rfl
  | named name =>
    rw [Choice.resolve] at h
    obtain ⟨descriptor, _, h⟩ := bind_eq_ok_iff.1 h
    cases h
    rfl
  | given descriptor =>
    cases h
    rfl

/-- A choice that can be followed finds its key conditions in the filter. -/
theorem areFrom_of_resolve {choice : Choice} {resolution : Resolution}
    (h : choice.resolve schema tree = .ok resolution) :
    resolution.keys.AreFrom tree.terms := by
  rw [keys_of_resolve h]
  cases resolution.descriptor with
  | none => exact KeyTerms.areFrom_none _
  | some descriptor => exact areFrom_keyTerms descriptor

end IndexedSearch.Index
