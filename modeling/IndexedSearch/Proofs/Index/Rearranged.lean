import IndexedSearch.Proofs.Index.Key
import IndexedSearch.Proofs.Index.Priority

/-!
# Indexes and the order of conditions

Which indexes a filter without markers can use depends on the conditions in the groups of its
outermost level, but neither on their order nor on how they are grouped nor on the nested filters
among them. Filters with the same conditions have the same index selected for them, and the same
attributes in its key.
-/

namespace IndexedSearch

namespace Filter.Tree

variable {α : Type} {tree first second : Tree α}

/-- The leaves in the groups of the outermost level from left to right. -/
def groupLeaves (tree : Tree α) : List α :=
  tree.flatMap fun entry ↦
    match entry with
    | .group leaves => leaves
    | _ => []

theorem mem_groupLeaves_iff {leaf : α} :
    leaf ∈ tree.groupLeaves ↔ ∃ position, tree.HasAt position leaf := by
  unfold groupLeaves
  rw [List.mem_flatMap]
  constructor
  · intro hexists
    obtain ⟨entry, hentry, hleaf⟩ := hexists
    obtain ⟨i, hi⟩ := List.getElem?_of_mem hentry
    cases entry with
    | or => cases hleaf
    | nested entries => cases hleaf
    | group leaves =>
      obtain ⟨j, hj⟩ := List.getElem?_of_mem hleaf
      exact ⟨⟨i, j⟩, leaves, hi, hj⟩
  · intro hexists
    obtain ⟨position, leaves, hgroup, hleaf⟩ := hexists
    exact ⟨.group leaves, List.mem_of_getElem? hgroup, List.mem_of_getElem? hleaf⟩

/-- Neither tree has a marker at its outermost level, and the groups there have the same leaves. -/
structure IsRearranged (first second : Tree α) : Prop where
  unmarked : first.hasOr = false
  otherUnmarked : second.hasOr = false
  leaves : first.groupLeaves.Perm second.groupLeaves

theorem IsRearranged.exists_hasAt_iff (h : first.IsRearranged second) {leaf : α} :
    (∃ position, first.HasAt position leaf) ↔ ∃ position, second.HasAt position leaf := by
  rw [← mem_groupLeaves_iff, ← mem_groupLeaves_iff]
  exact h.leaves.mem_iff

end Filter.Tree

namespace Index

open IndexedSearch.Filter (Clause)

variable {schema : Schema} {tree first second : Filter.Tree Clause} {name : String}
  {descriptor : Descriptor}

/-- Whether an attribute is keyed is a matter of which conditions there are, not of their places. -/
theorem isKeyed_iff_exists_and_forall :
    IsKeyed schema tree name ↔
      (∃ clause, (∃ position, tree.HasAt position clause) ∧ IsOn schema name clause) ∧
        ∀ clause, (∃ position, tree.HasAt position clause) → IsOn schema name clause →
          clause.condition.isKeyEligible = true := by
  constructor
  · intro h
    obtain ⟨position, clause, hat, hon⟩ := h.nonempty
    refine ⟨⟨clause, ⟨position, hat⟩, hon⟩, ?_⟩
    intro other hother
    obtain ⟨place, hplace⟩ := hother
    exact h.eligible place other hplace
  · intro h
    obtain ⟨⟨clause, ⟨position, hat⟩, hon⟩, heligible⟩ := h
    refine ⟨⟨position, clause, hat, hon⟩, ?_⟩
    intro place other hplace
    exact heligible other ⟨place, hplace⟩

end Index

namespace Filter.Tree.IsRearranged

open Index

variable {schema : Schema} {first second : Tree Clause} {descriptor : Descriptor}

theorem isKeyed_iff (h : first.IsRearranged second) {name : String} :
    IsKeyed schema first name ↔ IsKeyed schema second name := by
  rw [isKeyed_iff_exists_and_forall, isKeyed_iff_exists_and_forall]
  simp only [h.exists_hasAt_iff]

theorem isUsable_iff (h : first.IsRearranged second) :
    IsUsable schema first descriptor ↔ IsUsable schema second descriptor := by
  constructor
  · intro husable
    exact ⟨h.otherUnmarked, h.isKeyed_iff.1 husable.hash,
      fun range hrange ↦ h.isKeyed_iff.1 (husable.range range hrange)⟩
  · intro husable
    exact ⟨h.unmarked, h.isKeyed_iff.2 husable.hash,
      fun range hrange ↦ h.isKeyed_iff.2 (husable.range range hrange)⟩

theorem keysHash_iff (h : first.IsRearranged second) :
    KeysHash schema first descriptor ↔ KeysHash schema second descriptor := by
  constructor
  · intro hkeys
    exact ⟨h.otherUnmarked, h.isKeyed_iff.1 hkeys.hash⟩
  · intro hkeys
    exact ⟨h.unmarked, h.isKeyed_iff.2 hkeys.hash⟩

/-- The key of an index is on the same attributes for both trees. -/
theorem map_name_eq (h : first.IsRearranged second) {key other : List KeyPart}
    (hfirst : IsKey schema first descriptor key) (hsecond : IsKey schema second descriptor other) :
    key.map KeyPart.name = other.map KeyPart.name := by
  cases hfirst with
  | hash _ _ halone =>
    cases hsecond with
    | hash => rfl
    | both _ _ hrange hboth => exact absurd (h.isKeyed_iff.2 hboth) (halone _ hrange)
  | both _ _ hrange hboth =>
    cases hsecond with
    | hash _ _ halone => exact absurd (h.isKeyed_iff.1 hboth) (halone _ hrange)
    | both _ _ hother =>
      rw [Option.mem_unique hrange hother]
      rfl

/-- The same index is selected for both trees, or none for both. -/
theorem map_descriptor_select? (h : first.IsRearranged second) (schema : Schema) :
    (select? schema first).map Selection.descriptor =
      (select? schema second).map Selection.descriptor :=
  map_descriptor_select?_congr fun _ ↦ h.isUsable_iff

end Filter.Tree.IsRearranged

end IndexedSearch
