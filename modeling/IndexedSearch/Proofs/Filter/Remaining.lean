import IndexedSearch.Proofs.Filter.Truth
import IndexedSearch.Proofs.Filter.WellFormed

/-!
# What remains of a filter

Conditions of the outermost level that are used elsewhere are taken out of a filter, and groups that
get empty go with them. The filter holds just if the conditions that were taken out hold and the
rest does. The leaves are shared out between the two: none is lost or doubled, and those that remain
keep their order.
-/

namespace IndexedSearch.Filter

variable {α β : Type}

namespace Entry

/-- The entry is a group without conditions. -/
def isEmptyGroup : Entry α → Bool
  | group [] => true
  | _ => false

/-- The conditions of a group that are not at the given places. -/
def keptConditions (positions : List Position) (i : Nat) (conditions : List α) : List α :=
  (conditions.zipIdx.filter fun (_, j) ↦ ⟨i, j⟩ ∉ positions).map Prod.fst

/-- The entry without the conditions at the given places. -/
def kept (positions : List Position) (i : Nat) : Entry α → Entry α
  | group conditions => group (keptConditions positions i conditions)
  | entry => entry

/-- The conditions of a group with their places. -/
def terms (i : Nat) : Entry Clause → List Term
  | group conditions => conditions.zipIdx.map fun (clause, j) ↦ ⟨⟨i, j⟩, clause⟩
  | _ => []

theorem mem_keptConditions {positions : List Position} {i : Nat} {conditions : List α} {value : α} :
    value ∈ keptConditions positions i conditions ↔
      ∃ j, conditions[j]? = some value ∧ ⟨i, j⟩ ∉ positions := by
  simp [keptConditions, List.mem_zipIdx_iff_getElem?]

theorem keptConditions_nil (i : Nat) (conditions : List α) :
    keptConditions [] i conditions = conditions := by
  have hall : (conditions.zipIdx.filter fun (_, j) ↦ ⟨i, j⟩ ∉ ([] : List Position)) =
      conditions.zipIdx :=
    List.filter_eq_self.2 (by simp)
  rw [keptConditions, hall, List.zipIdx_map_fst]

theorem keptConditions_sublist (positions : List Position) (i : Nat) (conditions : List α) :
    (keptConditions positions i conditions).Sublist conditions := by
  have h := (List.filter_sublist (p := fun (_, j) ↦ ⟨i, j⟩ ∉ positions)
    (l := conditions.zipIdx)).map Prod.fst
  rwa [List.zipIdx_map_fst] at h

theorem kept_nil (i : Nat) (entry : Entry α) : entry.kept [] i = entry := by
  cases entry with
  | group conditions => rw [kept, keptConditions_nil]
  | or => rfl
  | nested entries => rfl

theorem isOr_kept (positions : List Position) (i : Nat) (entry : Entry α) :
    (entry.kept positions i).isOr = entry.isOr := by
  cases entry <;> rfl

/-- Nothing but an empty group stands in the way of a proper entry. -/
theorem IsProper.kept {entry : Entry α} (h : entry.IsProper) {positions : List Position} {i : Nat}
    (hempty : (entry.kept positions i).isEmptyGroup = false) :
    (entry.kept positions i).IsProper := by
  cases h with
  | group =>
    apply Entry.IsProper.group
    intro hnil
    rw [Entry.kept, hnil] at hempty
    cases hempty
  | nested h => exact .nested h

theorem eq_group_nil_of_isEmptyGroup {entry : Entry α} (h : entry.isEmptyGroup = true) :
    entry = group [] := by
  cases entry with
  | or => cases h
  | nested entries => cases h
  | group conditions =>
    cases conditions with
    | nil => rfl
    | cons condition conditions => cases h

theorem IsProper.isEmptyGroup_eq_false {entry : Entry α} (h : entry.IsProper) :
    entry.isEmptyGroup = false := by
  cases h with
  | nested => rfl
  | group h =>
    unfold isEmptyGroup
    split
    · rename_i heq
      cases heq
      exact absurd rfl h
    · rfl

theorem leaves_kept_sublist (positions : List Position) (i : Nat) (entry : Entry α) :
    (entry.kept positions i).leaves.Sublist entry.leaves := by
  cases entry with
  | group conditions => exact keptConditions_sublist positions i conditions
  | or => exact List.Sublist.refl _
  | nested entries => exact List.Sublist.refl _

/-- The conditions of an entry are those of a group, each at its own place. -/
theorem mem_terms {i : Nat} {entry : Entry Clause} {term : Term} :
    term ∈ entry.terms i ↔ ∃ conditions, entry = group conditions ∧ term.position.entry = i ∧
      conditions[term.position.condition]? = some term.clause := by
  cases entry with
  | or => simp [terms]
  | nested entries => simp [terms]
  | group conditions =>
    constructor
    · intro h
      obtain ⟨⟨clause, j⟩, hclause, rfl⟩ := List.mem_map.1 h
      exact ⟨conditions, rfl, rfl, List.mem_zipIdx_iff_getElem?.1 hclause⟩
    · intro hexists
      rcases hexists with ⟨others, hconditions, rfl, hclause⟩
      cases hconditions
      exact List.mem_map.2
        ⟨(term.clause, term.position.condition), List.mem_zipIdx_iff_getElem?.2 hclause, rfl⟩

/-- An entry holds just if the conditions at the given places hold and what is kept does. -/
theorem truth?_eq_some_true_iff (positions : List Position) (i : Nat) {entry : Entry Clause}
    {truth : Clause → Bool} :
    entry.truth? truth = some true ↔
      (∀ term ∈ entry.terms i, term.position ∈ positions → truth term.clause = true) ∧
        (entry.kept positions i).truth? truth = some true := by
  cases entry with
  | or => simp [terms, kept]
  | nested entries => simp [terms, kept]
  | group conditions =>
    rw [kept, truth?, truth?, Option.some.injEq, Option.some.injEq, List.all_eq_true,
      List.all_eq_true]
    constructor
    · intro h
      constructor
      · intro term hterm _
        obtain ⟨others, hconditions, _, hclause⟩ := mem_terms.1 hterm
        cases hconditions
        exact h _ (List.mem_of_getElem? hclause)
      · intro clause hclause
        exact h clause ((keptConditions_sublist positions i conditions).subset hclause)
    · intro hboth clause hclause
      rcases hboth with ⟨hterms, hkept⟩
      obtain ⟨j, hclause⟩ := List.mem_iff_getElem?.1 hclause
      by_cases hmem : ⟨i, j⟩ ∈ positions
      · exact hterms ⟨⟨i, j⟩, clause⟩ (mem_terms.2 ⟨conditions, rfl, rfl, hclause⟩) hmem
      · exact hkept clause (mem_keptConditions.2 ⟨j, hclause, hmem⟩)

/-- A condition of a group is either at one of the given places or is kept. -/
theorem leaves_perm_terms_and_kept (positions : List Position) (i : Nat) (entry : Entry Clause) :
    entry.leaves.Perm
      ((((entry.terms i).filter fun term ↦ term.position ∈ positions).map Term.clause) ++
        (entry.kept positions i).leaves) := by
  cases entry with
  | or => exact List.Perm.refl _
  | nested entries => exact List.Perm.refl _
  | group conditions =>
    have h := (List.filter_append_perm (fun (_, j) ↦ decide (⟨i, j⟩ ∈ positions))
      conditions.zipIdx).map Prod.fst
    rw [List.zipIdx_map_fst, List.map_append] at h
    rw [terms, List.filter_map, List.map_map, kept, leaves, leaves, keptConditions]
    simpa [Function.comp_def] using h.symm

theorem mapLeavesAll_eq_map (f : α → β) (entries : List (Entry α)) :
    mapLeavesAll f entries = entries.map (mapLeaves f) := by
  induction entries with
  | nil => rfl
  | cons entry rest ih => rw [mapLeavesAll, ih, List.map_cons]

theorem leavesAll_eq_flatMap (entries : List (Entry α)) :
    leavesAll entries = entries.flatMap leaves := by
  induction entries with
  | nil => rfl
  | cons entry rest ih => rw [leavesAll, ih, List.flatMap_cons]

theorem isEmptyGroup_mapLeaves (f : α → β) (entry : Entry α) :
    (entry.mapLeaves f).isEmptyGroup = entry.isEmptyGroup := by
  cases entry with
  | group conditions => cases conditions <;> rfl
  | or => rfl
  | nested entries => rfl

theorem isOr_mapLeaves (f : α → β) (entry : Entry α) : (entry.mapLeaves f).isOr = entry.isOr := by
  cases entry <;> rfl

end Entry

theorem IsLevel.isEmptyGroup_eq_false {entry : Entry α} {entries : List (Entry α)}
    (h : IsLevel entries) (hmem : entry ∈ entries) : entry.isEmptyGroup = false := by
  by_cases hor : entry.isOr
  · cases entry with
    | or => rfl
    | group conditions => cases hor
    | nested entries => cases hor
  · exact (h.isProper_of_mem hmem (by simpa using hor)).isEmptyGroup_eq_false

namespace Tree

variable {tree : Tree α}

/-- The tree without the conditions at the given places, and without groups that are empty. -/
def remaining (positions : List Position) (tree : Tree α) : Tree α :=
  (tree.without positions).filter fun entry ↦ !entry.isEmptyGroup

theorem without_eq (positions : List Position) (tree : Tree α) :
    tree.without positions = tree.zipIdx.map fun (entry, i) ↦ entry.kept positions i := by
  apply List.map_congr_left
  intro place _
  rcases place with ⟨entry, i⟩
  cases entry <;> rfl

theorem mem_without {positions : List Position} {entry : Entry α} :
    entry ∈ tree.without positions ↔
      ∃ i, ∃ source : Entry α, tree[i]? = some source ∧ entry = source.kept positions i := by
  rw [without_eq, List.mem_map]
  constructor
  · intro hexists
    rcases hexists with ⟨⟨source, i⟩, hmem, rfl⟩
    exact ⟨i, source, List.mem_zipIdx_iff_getElem?.1 hmem, rfl⟩
  · intro hexists
    rcases hexists with ⟨i, source, hsource, rfl⟩
    exact ⟨⟨source, i⟩, List.mem_zipIdx_iff_getElem?.2 hsource, rfl⟩

theorem without_nil (tree : Tree α) : tree.without [] = tree := by
  rw [without_eq]
  simp only [Entry.kept_nil]
  exact List.zipIdx_map_fst 0 tree

theorem hasOr_without (positions : List Position) (tree : Tree α) :
    (tree.without positions).hasOr = tree.hasOr := by
  have h := congrArg (fun entries ↦ entries.any Entry.isOr) (List.zipIdx_map_fst 0 tree)
  rw [List.any_map] at h
  rw [hasOr, without_eq, List.any_map, hasOr, ← h]
  simp [Function.comp_def, Entry.isOr_kept]

theorem hasOr_mapLeaves (f : α → β) (tree : Tree α) : (tree.mapLeaves f).hasOr = tree.hasOr := by
  rw [hasOr, mapLeaves, Entry.mapLeavesAll_eq_map, List.any_map, hasOr]
  simp [Function.comp_def, Entry.isOr_mapLeaves]

theorem terms_of_hasOr_eq_false {tree : Tree Clause} (h : tree.hasOr = false) :
    tree.terms = tree.zipIdx.flatMap fun (entry, i) ↦ entry.terms i := by
  rw [terms, if_neg (by simp [h])]
  apply congrArg (fun terms ↦ tree.zipIdx.flatMap terms)
  funext place
  rcases place with ⟨entry, i⟩
  cases entry <;> rfl

/-- A condition has to be satisfied just if it is one of an entry of a tree without markers. -/
theorem mem_terms {tree : Tree Clause} {term : Term} :
    term ∈ tree.terms ↔ tree.hasOr = false ∧
      ∃ (i : Nat) (entry : Entry Clause), tree[i]? = some entry ∧ term ∈ entry.terms i := by
  by_cases hor : tree.hasOr
  · simp [terms, hor]
  · replace hor : tree.hasOr = false := by simpa using hor
    simp only [terms_of_hasOr_eq_false hor, hor, true_and, List.mem_flatMap]
    constructor
    · intro hexists
      rcases hexists with ⟨⟨entry, i⟩, hentry, hterm⟩
      exact ⟨i, entry, List.mem_zipIdx_iff_getElem?.1 hentry, hterm⟩
    · intro hexists
      rcases hexists with ⟨i, entry, hentry, hterm⟩
      exact ⟨(entry, i), List.mem_zipIdx_iff_getElem?.2 hentry, hterm⟩

/-- There is one condition at a place. -/
theorem eq_of_position_eq {tree : Tree Clause} {term other : Term} (hterm : term ∈ tree.terms)
    (hother : other ∈ tree.terms) (h : term.position = other.position) : term = other := by
  obtain ⟨_, _, _, hentry, hin⟩ := mem_terms.1 hterm
  obtain ⟨_, _, _, hentry', hin'⟩ := mem_terms.1 hother
  obtain ⟨_, rfl, rfl, hclause⟩ := Entry.mem_terms.1 hin
  obtain ⟨_, rfl, rfl, hclause'⟩ := Entry.mem_terms.1 hin'
  rw [h] at hentry hclause
  cases hentry.symm.trans hentry'
  have hsame : term.clause = other.clause := Option.some.inj (hclause.symm.trans hclause')
  cases term
  cases other
  exact congr (congrArg Term.mk h) hsame

/-! ## Form -/

variable {used : List Term}

/-- A tree with markers has no condition to use, so that nothing is taken out of it. -/
theorem eq_nil_of_subset_terms {tree : Tree Clause} (h : ∀ term ∈ used, term ∈ tree.terms)
    (hor : tree.hasOr = true) : used = [] := by
  apply List.eq_nil_iff_forall_not_mem.2
  intro term hterm
  have := (mem_terms.1 (h term hterm)).1
  simp [hor] at this

/-- With no place given, a well-formed tree remains as it is. -/
theorem IsWellFormed.remaining_nil (h : tree.IsWellFormed) : tree.remaining [] = tree := by
  rw [remaining, without_nil]
  rcases h with rfl | h
  · rfl
  · apply List.filter_eq_self.2
    intro entry hmem
    rw [h.isEmptyGroup_eq_false hmem]
    rfl

/-- What remains of a well-formed tree is well formed. -/
theorem IsWellFormed.remaining {tree : Tree Clause} (h : tree.IsWellFormed)
    (hused : ∀ term ∈ used, term ∈ tree.terms) :
    (tree.remaining (used.map Term.position)).IsWellFormed := by
  by_cases hor : tree.hasOr
  · rw [eq_nil_of_subset_terms hused hor, List.map_nil, h.remaining_nil]
    exact h
  · apply isWellFormed_of_forall
    intro entry hmem
    obtain ⟨hwithout, hempty⟩ := List.mem_filter.1 hmem
    obtain ⟨i, source, hsource, rfl⟩ := mem_without.1 hwithout
    have hproper : source.IsProper :=
      h.isProper_of_hasOr_eq_false (by simpa using hor) source (List.mem_of_getElem? hsource)
    exact hproper.kept (by simpa using hempty)

/-! ## Truth -/

/-- A group without conditions makes no difference. -/
theorem holds_filter_isEmptyGroup (truth : α → Bool) (tree : Tree α) :
    Tree.holds truth (tree.filter fun entry ↦ !entry.isEmptyGroup) = tree.holds truth := by
  have h (sofar : Bool) :
      runHoldsFrom sofar (Entry.truths truth (tree.filter fun entry ↦ !entry.isEmptyGroup)) =
        runHoldsFrom sofar (Entry.truths truth tree) := by
    induction tree generalizing sofar with
    | nil => rfl
    | cons entry rest ih =>
      by_cases hempty : entry.isEmptyGroup
      · rw [List.filter_cons_of_neg (by simpa using hempty), ih,
          Entry.eq_group_nil_of_isEmptyGroup hempty,
          Entry.truths, Entry.truth?, List.all_nil, runHoldsFrom, Bool.and_true]
      · rw [List.filter_cons_of_pos (by simpa using hempty), Entry.truths, Entry.truths]
        cases entry.truth? truth with
        | none => rw [runHoldsFrom, runHoldsFrom, ih]
        | some value => rw [runHoldsFrom, runHoldsFrom, ih]
  rw [holds_eq_runHoldsFrom, holds_eq_runHoldsFrom, h]

/-- The conditions that are taken out and the rest of the tree hold together. -/
theorem holds_eq_used_and_without {tree : Tree Clause} (hused : ∀ term ∈ used, term ∈ tree.terms)
    (truth : Clause → Bool) :
    tree.holds truth = ((used.all fun term ↦ truth term.clause) &&
      (tree.without (used.map Term.position)).holds truth) := by
  by_cases hor : tree.hasOr
  · rw [eq_nil_of_subset_terms hused hor, List.map_nil, without_nil]
    rfl
  replace hor : tree.hasOr = false := by simpa using hor
  rw [Bool.eq_iff_iff, Bool.and_eq_true, List.all_eq_true, holds_iff_of_hasOr_eq_false hor,
    holds_iff_of_hasOr_eq_false ((hasOr_without _ tree).trans hor)]
  constructor
  · intro h
    constructor
    · intro term hterm
      obtain ⟨_, i, entry, hentry, hmem⟩ := mem_terms.1 (hused term hterm)
      have hboth := (Entry.truth?_eq_some_true_iff (used.map Term.position) i).1
        (h entry (List.mem_of_getElem? hentry))
      exact hboth.1 term hmem (List.mem_map_of_mem hterm)
    · intro entry hentry
      obtain ⟨i, source, hsource, rfl⟩ := mem_without.1 hentry
      have hboth := (Entry.truth?_eq_some_true_iff (used.map Term.position) i).1
        (h source (List.mem_of_getElem? hsource))
      exact hboth.2
  · intro hboth entry hentry
    rcases hboth with ⟨hterms, hrest⟩
    obtain ⟨i, hentry⟩ := List.mem_iff_getElem?.1 hentry
    apply (Entry.truth?_eq_some_true_iff (used.map Term.position) i).2
    constructor
    · intro term hmem hposition
      -- The place determines the condition, so the one that is used there is this one.
      obtain ⟨other, hother, heq⟩ := List.mem_map.1 hposition
      have hterm : term ∈ tree.terms := mem_terms.2 ⟨hor, i, entry, hentry, hmem⟩
      rw [← eq_of_position_eq (hused other hother) hterm heq]
      exact hterms other hother
    · exact hrest _ (mem_without.2 ⟨i, entry, hentry, rfl⟩)

/-- The filter holds just if the conditions that are taken out and what remains do. -/
theorem holds_eq_used_and_remaining {tree : Tree Clause}
    (hused : ∀ term ∈ used, term ∈ tree.terms) (truth : Clause → Bool) :
    tree.holds truth = ((used.all fun term ↦ truth term.clause) &&
      (tree.remaining (used.map Term.position)).holds truth) := by
  rw [holds_eq_used_and_without hused truth, remaining, holds_filter_isEmptyGroup]

/-! ## Leaves -/

/-- No leaf is lost with the empty groups. -/
theorem leaves_remaining (positions : List Position) (tree : Tree α) :
    (tree.remaining positions).leaves = (tree.without positions).leaves := by
  rw [remaining, leaves, leaves, Entry.leavesAll_eq_flatMap, Entry.leavesAll_eq_flatMap]
  induction tree.without positions with
  | nil => rfl
  | cons entry rest ih =>
    by_cases hempty : entry.isEmptyGroup
    · have hleaves : entry.leaves = [] := by
        rw [Entry.eq_group_nil_of_isEmptyGroup hempty]
        rfl
      rw [List.filter_cons_of_neg (by simpa using hempty), ih, List.flatMap_cons, hleaves,
        List.nil_append]
    · rw [List.filter_cons_of_pos (by simpa using hempty), List.flatMap_cons, List.flatMap_cons, ih]

/-- The leaves that remain keep their order. -/
theorem leaves_remaining_sublist (positions : List Position) (tree : Tree α) :
    (tree.remaining positions).leaves.Sublist tree.leaves := by
  have h (start : Nat) :
      ((tree.zipIdx start).map fun (entry, i) ↦ entry.kept positions i).flatMap Entry.leaves
        |>.Sublist (tree.flatMap Entry.leaves) := by
    induction tree generalizing start with
    | nil => exact List.Sublist.refl _
    | cons entry rest ih =>
      exact (Entry.leaves_kept_sublist positions start entry).append (ih (start + 1))
  rw [leaves_remaining, without_eq, leaves, leaves, Entry.leavesAll_eq_flatMap,
    Entry.leavesAll_eq_flatMap]
  exact h 0

/-- Every leaf is either at one of the given places or remains. -/
theorem leaves_perm_used_and_remaining {tree : Tree Clause}
    (hused : ∀ term ∈ used, term ∈ tree.terms) :
    tree.leaves.Perm
      (((tree.terms.filter fun term ↦ term.position ∈ used.map Term.position).map Term.clause) ++
        (tree.remaining (used.map Term.position)).leaves) := by
  by_cases hor : tree.hasOr
  · rw [eq_nil_of_subset_terms hused hor, leaves_remaining, List.map_nil, without_nil, terms,
      if_pos hor]
    exact List.Perm.refl _
  replace hor : tree.hasOr = false := by simpa using hor
  rw [leaves_remaining, without_eq, terms_of_hasOr_eq_false hor, leaves, leaves,
    Entry.leavesAll_eq_flatMap, Entry.leavesAll_eq_flatMap]
  generalize used.map Term.position = positions
  clear hused hor
  have h (start : Nat) : (tree.flatMap Entry.leaves).Perm
      (((((tree.zipIdx start).flatMap fun (entry, i) ↦ entry.terms i).filter fun term ↦
          term.position ∈ positions).map Term.clause) ++
        ((tree.zipIdx start).map fun (entry, i) ↦ entry.kept positions i).flatMap
          Entry.leaves) := by
    induction tree generalizing start with
    | nil => exact List.Perm.refl _
    | cons entry rest ih =>
      have hentry := entry.leaves_perm_terms_and_kept positions start
      rw [List.zipIdx_cons, List.flatMap_cons, List.flatMap_cons, List.map_cons, List.flatMap_cons,
        List.filter_append, List.map_append]
      apply (hentry.append (ih (start + 1))).trans
      -- What the other entries have at the places comes before what is kept of this one.
      rw [List.append_assoc, List.append_assoc]
      apply List.Perm.append_left
      exact List.perm_append_comm_assoc _ _ _
  exact h 0

end Tree

end IndexedSearch.Filter
