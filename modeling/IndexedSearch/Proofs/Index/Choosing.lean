import IndexedSearch.Proofs.Index.Key
import IndexedSearch.Proofs.Index.Naming

/-!
# What a choice leads to

A choice cannot be followed only if it names an index that the schema does not have. If it can, the
filter has key conditions just if the filter keys the hash attribute of the index that the choice
leads to. Left open, the choice leads to an index that the filter can use, so that there are key
conditions as soon as there is such an index.
-/

namespace IndexedSearch.Index

open IndexedSearch.Filter (Clause)

variable {schema : Schema} {tree : Filter.Tree Clause} {descriptor : Descriptor} {choice : Choice}
  {resolution : Resolution}

/-- The choice is not one of an index that the schema does not have. -/
def Choice.IsKnown (schema : Schema) (choice : Choice) : Prop :=
  ∀ name, choice = .named name → name ∈ schema.indexNames

/-- The filter has a condition for the key of the index that the choice leads to. -/
inductive Choice.HasKey (schema : Schema) (tree : Filter.Tree Clause) : Choice → Prop
  | automatic {rank : Rank} {descriptor : Descriptor} (hoffers : Offers schema rank descriptor)
    (husable : IsUsable schema tree descriptor) : HasKey schema tree .automatic
  | named {name : String} {descriptor : Descriptor}
    (hnamed : Descriptor.named schema name = .ok descriptor)
    (hkeys : KeysHash schema tree descriptor) : HasKey schema tree (.named name)
  | given {descriptor : Descriptor} (hkeys : KeysHash schema tree descriptor) :
    HasKey schema tree (.given descriptor)

theorem IsUsable.keysHash (h : IsUsable schema tree descriptor) :
    KeysHash schema tree descriptor :=
  ⟨h.unmarked, h.hash⟩

/-- As soon as the filter can use an index, one is selected. -/
theorem exists_select?_of_offers {rank : Rank} (hoffers : Offers schema rank descriptor)
    (husable : IsUsable schema tree descriptor) :
    ∃ selection, select? schema tree = some selection := by
  rw [← Option.isSome_iff_exists, select?_eq_findSome?, List.findSome?_isSome_iff]
  refine ⟨descriptor, List.mem_map_of_mem (mem_ranked_iff.2 hoffers), ?_⟩
  rw [selection?_eq_some_iff.2 ⟨husable, rfl⟩]
  rfl

/-- With the choice left open, some index is selected just if the filter has a condition for its
key. -/
theorem hasKey_automatic_iff :
    Choice.automatic.HasKey schema tree ↔
      ∃ descriptor ∈ (select? schema tree).map Selection.descriptor,
        KeysHash schema tree descriptor := by
  constructor
  · intro h
    cases h with
    | automatic hoffers husable =>
      obtain ⟨selection, hselection⟩ := exists_select?_of_offers hoffers husable
      obtain ⟨_, _, hselected⟩ := exists_offers_of_select? hselection
      exact ⟨selection.descriptor, by rw [hselection]; rfl, hselected.keysHash⟩
  · intro hexists
    obtain ⟨_, hmem, -⟩ := hexists
    obtain ⟨selection, hselection, rfl⟩ := Option.map_eq_some_iff.1 hmem
    obtain ⟨_, hoffers, husable⟩ := exists_offers_of_select? hselection
    exact .automatic hoffers husable

theorem hasKey_named_iff {name : String} (h : Descriptor.named schema name = .ok descriptor) :
    (Choice.named name).HasKey schema tree ↔ KeysHash schema tree descriptor := by
  constructor
  · intro hkey
    cases hkey with
    | named hnamed hkeys =>
      cases h.symm.trans hnamed
      exact hkeys
  · exact .named h

theorem hasKey_given_iff :
    (Choice.given descriptor).HasKey schema tree ↔ KeysHash schema tree descriptor := by
  constructor
  · intro hkey
    cases hkey with
    | given hkeys => exact hkeys
  · exact .given

/-- A choice has a key just if the filter keys the hash attribute of the index that was found. -/
theorem hasKey_iff_of_resolve (h : choice.resolve schema tree = .ok resolution) :
    choice.HasKey schema tree ↔
      ∃ descriptor ∈ resolution.descriptor, KeysHash schema tree descriptor := by
  cases choice with
  | automatic => rw [hasKey_automatic_iff, descriptor_of_resolve_automatic h]
  | named name =>
    rw [Choice.resolve] at h
    obtain ⟨descriptor, hnamed, h⟩ := bind_eq_ok_iff.1 h
    cases h
    rw [hasKey_named_iff hnamed]
    simp
  | given descriptor =>
    cases h
    rw [hasKey_given_iff]
    simp

/-- No key conditions are found just if the choice has no key. -/
theorem keyConditions_eq_nil_iff (h : choice.resolve schema tree = .ok resolution) :
    Plan.keyConditions resolution.keys = [] ↔ ¬ choice.HasKey schema tree := by
  rw [hasKey_iff_of_resolve h]
  rcases keyConditions_of_resolve h with ⟨descriptor, hmem, key, hkey, hterms⟩ | ⟨hnone, hterms⟩
  · apply iff_of_false
    · rw [hterms, List.map_eq_nil_iff]
      exact hkey.ne_nil
    · exact not_not_intro ⟨descriptor, hmem, hkey.keysHash⟩
  · apply iff_of_true hterms
    intro hexists
    obtain ⟨descriptor, hmem, hkeys⟩ := hexists
    exact hnone descriptor hmem hkeys

/-- Only an unknown name keeps a choice from being followed, and that is what the error says. -/
theorem resolve_eq_error_iff {error : SchemaError} :
    choice.resolve schema tree = .error error ↔
      ∃ name, choice = .named name ∧ name ∉ schema.indexNames ∧
        SchemaError.indexNotFound name = error := by
  cases choice with
  | automatic =>
    rw [Choice.resolve]
    split
    · simp [pure_ne_error]
    · simp [pure_ne_error]
  | given descriptor => simp [Choice.resolve, pure_ne_error]
  | named name =>
    rw [Choice.resolve, bind_eq_error_iff, Descriptor.named_eq_error_iff]
    simp [pure_ne_error]

/-- A choice can be followed if it is known. -/
theorem exists_resolve_eq_ok_iff :
    (∃ resolution, choice.resolve schema tree = .ok resolution) ↔ choice.IsKnown schema := by
  constructor
  · intro hexists name hname
    obtain ⟨resolution, hresolution⟩ := hexists
    by_contra hunknown
    have herror : choice.resolve schema tree = .error (.indexNotFound name) :=
      resolve_eq_error_iff.2 ⟨name, hname, hunknown, rfl⟩
    cases hresolution.symm.trans herror
  · intro hknown
    cases hresolve : choice.resolve schema tree with
    | ok resolution => exact ⟨resolution, rfl⟩
    | error error =>
      obtain ⟨name, hname, hunknown, -⟩ := resolve_eq_error_iff.1 hresolve
      exact absurd (hknown name hname) hunknown

end IndexedSearch.Index
