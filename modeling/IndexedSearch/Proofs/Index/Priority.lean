import IndexedSearch.Proofs.Index.Usable

/-!
# Which index is selected

The indexes that a request can be served by have ranks: the primary key comes first, then the global
and then the local indexes in order of declaration, but only those that carry all attributes. The
index of the least rank that the filter can use is selected, with the first conditions on its key
attributes. No index is selected just if the filter can use none.
-/

namespace IndexedSearch

theorem Projection.isAll_iff {projection : Projection} :
    projection.isAll = true ↔ projection = .all := by
  cases projection <;> simp [isAll]

end IndexedSearch

namespace IndexedSearch.Index

open IndexedSearch.Filter (Clause)

/-- Where an index stands among those that a request can be served by. -/
inductive Rank where
  | primary
  | global (number : Nat)
  | localIndex (number : Nat)

namespace Rank

/-- The kind of an index comes before its number in order of declaration. -/
def place : Rank → Nat ×ₗ Nat
  | primary => toLex (0, 0)
  | global number => toLex (1, number)
  | localIndex number => toLex (2, number)

theorem place_injective : Function.Injective place := by
  intro first second h
  cases first <;> cases second <;> simp_all [place]

instance : PartialOrder Rank := PartialOrder.lift place place_injective

theorem primary_lt_global (number : Nat) : primary < global number :=
  Prod.Lex.toLex_lt_toLex.2 (.inl Nat.zero_lt_one)

theorem primary_lt_localIndex (number : Nat) : primary < localIndex number :=
  Prod.Lex.toLex_lt_toLex.2 (.inl Nat.zero_lt_two)

theorem global_lt_localIndex (number other : Nat) : global number < localIndex other :=
  Prod.Lex.toLex_lt_toLex.2 (.inl Nat.one_lt_two)

theorem global_lt_global {number other : Nat} (h : number < other) :
    global number < global other :=
  Prod.Lex.toLex_lt_toLex.2 (.inr ⟨rfl, h⟩)

theorem localIndex_lt_localIndex {number other : Nat} (h : number < other) :
    localIndex number < localIndex other :=
  Prod.Lex.toLex_lt_toLex.2 (.inr ⟨rfl, h⟩)

end Rank

/--
The schema offers an index at a rank: its primary key, and every secondary index that carries all
attributes. A local index has the hash attribute of the table.
-/
inductive Offers (schema : Schema) : Rank → Descriptor → Prop
  | primary : Offers schema .primary ⟨.primary, none, schema.key.hash, schema.key.range⟩
  | global {number : Nat} {index : GlobalIndex}
    (h : schema.globalIndexes[number]? = some index) (hall : index.projection = .all) :
    Offers schema (.global number) ⟨.global, some index.name, index.hash, index.range⟩
  | localIndex {number : Nat} {index : LocalIndex}
    (h : schema.localIndexes[number]? = some index) (hall : index.projection = .all) :
    Offers schema (.localIndex number)
      ⟨.localIndex, some index.name, schema.key.hash, some index.range⟩

/-! ## The candidates with their ranks -/

section

variable {α : Type} (rank : Nat → Rank) (describe : α → Descriptor) (projection : α → Projection)

/-- The indexes of a list that carry all attributes, with their ranks. -/
def rankedIndexes (indexes : List α) : List (Rank × Descriptor) :=
  (indexes.zipIdx.filter fun (index, _) ↦ (projection index).isAll).map fun (index, number) ↦
    (rank number, describe index)

theorem map_snd_rankedIndexes (indexes : List α) :
    (rankedIndexes rank describe projection indexes).map Prod.snd =
      (indexes.filter fun index ↦ (projection index).isAll).map describe := by
  calc
    _ = ((indexes.zipIdx.filter fun (index, _) ↦ (projection index).isAll).map Prod.fst).map
        describe := by
      rw [rankedIndexes, List.map_map, List.map_map]
      rfl
    _ = ((indexes.zipIdx.map Prod.fst).filter fun index ↦ (projection index).isAll).map
        describe := by
      rw [List.filter_map]
      rfl
    _ = _ := by rw [List.zipIdx_map_fst]

theorem mem_rankedIndexes {indexes : List α} {place : Rank × Descriptor} :
    place ∈ rankedIndexes rank describe projection indexes ↔
      ∃ number index, indexes[number]? = some index ∧ (projection index).isAll = true ∧
        (rank number, describe index) = place := by
  unfold rankedIndexes
  rw [List.mem_map]
  constructor
  · intro hexists
    obtain ⟨⟨index, number⟩, hmem, rfl⟩ := hexists
    obtain ⟨hindex, hall⟩ := List.mem_filter.1 hmem
    exact ⟨number, index, List.mem_zipIdx_iff_getElem?.1 hindex, hall, rfl⟩
  · intro hexists
    obtain ⟨number, index, hindex, hall, rfl⟩ := hexists
    exact ⟨(index, number), List.mem_filter.2 ⟨List.mem_zipIdx_iff_getElem?.2 hindex, hall⟩, rfl⟩

theorem pairwise_rankedIndexes (hrank : ∀ {number other}, number < other → rank number < rank other)
    (indexes : List α) :
    (rankedIndexes rank describe projection indexes).Pairwise fun first second ↦
      first.1 < second.1 := by
  unfold rankedIndexes
  apply List.pairwise_map.2
  apply ((Filter.pairwise_zipIdx indexes).filter _).imp
  intro first second hlt
  exact hrank hlt

end

/-- The candidates of a schema, each with its rank. -/
def ranked (schema : Schema) : List (Rank × Descriptor) :=
  (.primary, .primary schema) ::
    (rankedIndexes .global .global GlobalIndex.projection schema.globalIndexes ++
      rankedIndexes .localIndex (.localIndex schema) LocalIndex.projection schema.localIndexes)

variable {schema : Schema} {tree : Filter.Tree Clause}

theorem map_snd_ranked (schema : Schema) : (ranked schema).map Prod.snd = candidates schema := by
  unfold ranked candidates
  rw [List.map_cons, List.map_append, map_snd_rankedIndexes, map_snd_rankedIndexes]

/-- The candidates are what the schema offers. -/
theorem mem_ranked_iff {rank : Rank} {descriptor : Descriptor} :
    (rank, descriptor) ∈ ranked schema ↔ Offers schema rank descriptor := by
  unfold ranked
  rw [List.mem_cons, List.mem_append, mem_rankedIndexes, mem_rankedIndexes]
  constructor
  · intro h
    rcases h with hprimary | ⟨number, index, hindex, hall, hplace⟩ |
      ⟨number, index, hindex, hall, hplace⟩
    · cases hprimary
      exact .primary
    · cases hplace
      exact .global hindex (Projection.isAll_iff.1 hall)
    · cases hplace
      exact .localIndex hindex (Projection.isAll_iff.1 hall)
  · intro h
    cases h with
    | primary => exact .inl rfl
    | global h hall => exact .inr (.inl ⟨_, _, h, Projection.isAll_iff.2 hall, rfl⟩)
    | localIndex h hall => exact .inr (.inr ⟨_, _, h, Projection.isAll_iff.2 hall, rfl⟩)

/-- The candidates are tried in the order of their ranks. -/
theorem pairwise_ranked (schema : Schema) :
    (ranked schema).Pairwise fun first second ↦ first.1 < second.1 := by
  unfold ranked
  apply List.pairwise_cons.2
  constructor
  · intro place hplace
    rcases List.mem_append.1 hplace with hglobal | hlocal
    · obtain ⟨number, _, _, _, rfl⟩ := (mem_rankedIndexes _ _ _).1 hglobal
      exact Rank.primary_lt_global number
    · obtain ⟨number, _, _, _, rfl⟩ := (mem_rankedIndexes _ _ _).1 hlocal
      exact Rank.primary_lt_localIndex number
  · apply List.pairwise_append.2
    refine ⟨pairwise_rankedIndexes _ _ _ Rank.global_lt_global _,
      pairwise_rankedIndexes _ _ _ Rank.localIndex_lt_localIndex _, ?_⟩
    intro first hfirst second hsecond
    obtain ⟨number, _, _, _, rfl⟩ := (mem_rankedIndexes _ _ _).1 hfirst
    obtain ⟨other, _, _, _, rfl⟩ := (mem_rankedIndexes _ _ _).1 hsecond
    exact Rank.global_lt_localIndex number other

/-! ## The first usable candidate -/

/-- The first outcome among places in order comes from the least place that has one. -/
theorem exists_least_of_findSome? {β : Type} {places : List (Rank × Descriptor)}
    (hsorted : places.Pairwise fun first second ↦ first.1 < second.1)
    {outcome? : Descriptor → Option β} {outcome : β}
    (h : (places.map Prod.snd).findSome? outcome? = some outcome) :
    ∃ rank descriptor, (rank, descriptor) ∈ places ∧ outcome? descriptor = some outcome ∧
      ∀ place ∈ places, outcome? place.2 ≠ none → rank ≤ place.1 := by
  rw [List.findSome?_map, List.findSome?_eq_some_iff] at h
  obtain ⟨before, ⟨rank, descriptor⟩, after, rfl, houtcome, hbefore⟩ := h
  obtain ⟨-, hafter, -⟩ := List.pairwise_append.1 hsorted
  refine ⟨rank, descriptor, by simp, houtcome, ?_⟩
  intro place hplace hne
  rcases List.mem_append.1 hplace with hplace | hplace
  · exact absurd (hbefore place hplace) hne
  · rcases List.mem_cons.1 hplace with rfl | hplace
    · exact le_rfl
    · exact ((List.pairwise_cons.1 hafter).1 place hplace).le

/-- The selection is of the first index that the filter can use, with the first conditions on its
key attributes. -/
structure Selection.IsFirstUsable (selection : Selection) (schema : Schema)
    (tree : Filter.Tree Clause) : Prop where
  usable : IsUsable schema tree selection.descriptor
  first : ∃ rank, Offers schema rank selection.descriptor ∧
    IsLeast {rank | ∃ descriptor, Offers schema rank descriptor ∧
      IsUsable schema tree descriptor} rank
  keys : selection.keys.AreFirst schema tree selection.descriptor

/-- What a candidate gives for a filter: a selection, if the filter can use it. -/
def selection? (schema : Schema) (tree : Filter.Tree Clause) (descriptor : Descriptor) :
    Option Selection :=
  if (keyTerms schema tree descriptor).suffice descriptor then
    some ⟨descriptor, keyTerms schema tree descriptor⟩
  else none

theorem selection?_eq_some_iff {descriptor : Descriptor} {selection : Selection} :
    selection? schema tree descriptor = some selection ↔
      IsUsable schema tree descriptor ∧
        ⟨descriptor, keyTerms schema tree descriptor⟩ = selection := by
  unfold selection?
  rw [← suffice_iff_isUsable, Option.ite_none_right_eq_some, Option.some.injEq]

theorem selection?_eq_none_iff {descriptor : Descriptor} :
    selection? schema tree descriptor = none ↔ ¬ IsUsable schema tree descriptor := by
  unfold selection?
  rw [← suffice_iff_isUsable]
  split
  · rename_i husable
    exact iff_of_false nofun (not_not_intro husable)
  · rename_i husable
    exact iff_of_true rfl husable

theorem select?_eq_findSome? (schema : Schema) (tree : Filter.Tree Clause) :
    select? schema tree = ((ranked schema).map Prod.snd).findSome? (selection? schema tree) := by
  rw [map_snd_ranked]
  rfl

/-- A candidate is selected if the conditions that are found for its key suffice. -/
theorem map_descriptor_selection? {descriptor : Descriptor} :
    (selection? schema tree descriptor).map Selection.descriptor =
      if (keyTerms schema tree descriptor).suffice descriptor then some descriptor else none := by
  unfold selection?
  split
  · rfl
  · rfl

/-- The same index is selected for two filters that can use the same ones, or none for both. -/
theorem map_descriptor_select?_congr {first second : Filter.Tree Clause}
    (h : ∀ descriptor, IsUsable schema first descriptor ↔ IsUsable schema second descriptor) :
    (select? schema first).map Selection.descriptor =
      (select? schema second).map Selection.descriptor := by
  have hcandidate : Option.map Selection.descriptor ∘ selection? schema first =
      Option.map Selection.descriptor ∘ selection? schema second := by
    funext descriptor
    have hsuffice : (keyTerms schema first descriptor).suffice descriptor =
        (keyTerms schema second descriptor).suffice descriptor := by
      apply Bool.eq_iff_iff.2
      rw [suffice_iff_isUsable, suffice_iff_isUsable]
      exact h descriptor
    rw [Function.comp_apply, Function.comp_apply, map_descriptor_selection?,
      map_descriptor_selection?, hsuffice]
  rw [select?_eq_findSome?, select?_eq_findSome?, List.map_findSome?, List.map_findSome?,
    hcandidate]

/-- The first index that the filter can use is selected, and none just if it can use none. -/
theorem select?_isFirstUsable (schema : Schema) (tree : Filter.Tree Clause) :
    (select? schema tree = none ↔
      ∀ rank descriptor, Offers schema rank descriptor → ¬ IsUsable schema tree descriptor) ∧
    ∀ selection ∈ select? schema tree, selection.IsFirstUsable schema tree := by
  rw [select?_eq_findSome?]
  constructor
  · rw [List.findSome?_eq_none_iff, List.forall_mem_map]
    constructor
    · intro h rank descriptor hoffers
      exact selection?_eq_none_iff.1 (h (rank, descriptor) (mem_ranked_iff.2 hoffers))
    · intro h place hplace
      exact selection?_eq_none_iff.2 (h place.1 place.2 (mem_ranked_iff.1 hplace))
  · intro selection hselection
    obtain ⟨rank, descriptor, hmem, hsome, hleast⟩ :=
      exists_least_of_findSome? (pairwise_ranked schema) hselection
    obtain ⟨husable, rfl⟩ := selection?_eq_some_iff.1 hsome
    have hoffers := mem_ranked_iff.1 hmem
    refine ⟨husable, ⟨rank, hoffers, ⟨descriptor, hoffers, husable⟩, ?_⟩,
      husable.areFirst_keyTerms⟩
    intro other hother
    obtain ⟨found, hfound, hfoundUsable⟩ := hother
    apply hleast (other, found) (mem_ranked_iff.2 hfound)
    rw [ne_eq, selection?_eq_none_iff, not_not]
    exact hfoundUsable

end IndexedSearch.Index
