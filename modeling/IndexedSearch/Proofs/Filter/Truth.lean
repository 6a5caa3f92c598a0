import IndexedSearch.Filter.Tree

/-!
# Truth of filter trees

A tree holds if every entry holds in at least one of the runs between its markers; a group holds if
all of its conditions do, and a nested entry if its tree does. The truth of the conditions is given.
The runs can be judged from left to right, with no more to remember than whether the run that is
being read holds so far.
-/

namespace IndexedSearch.Filter

variable {α β : Type}

/-- Everything holds in one of the runs between the markers, which have no truth value. -/
def someRunHolds (truths : List (Option Bool)) : Bool :=
  (truths.splitOn none).any fun run ↦ run.all (· == some true)

namespace Entry

mutual

/-- The truth value of an entry, unless it is a marker. -/
def truth? (truth : α → Bool) : Entry α → Option Bool
  | or => none
  | group conditions => some (conditions.all truth)
  | nested entries => some (someRunHolds (truths truth entries))

/-- The truth values of entries one after another. -/
def truths (truth : α → Bool) : List (Entry α) → List (Option Bool)
  | [] => []
  | entry :: rest => truth? truth entry :: truths truth rest

end

theorem truths_eq_map (truth : α → Bool) (entries : List (Entry α)) :
    truths truth entries = entries.map (truth? truth) := by
  induction entries with
  | nil => rfl
  | cons entry rest ih => rw [truths, ih, List.map_cons]

end Entry

/-- The tree holds. -/
def Tree.holds (truth : α → Bool) (tree : Tree α) : Bool :=
  someRunHolds (Entry.truths truth tree)

/-! ## From left to right -/

/-- One of the runs holds, the first of them with what was read of it before. -/
def runHoldsFrom (sofar : Bool) : List (Option Bool) → Bool
  | [] => sofar
  | none :: rest => sofar || runHoldsFrom true rest
  | some value :: rest => runHoldsFrom (sofar && value) rest

/-- What was read before is part of the first run. -/
theorem runHoldsFrom_eq (sofar : Bool) (truths : List (Option Bool)) :
    runHoldsFrom sofar truths = ((truths.splitOn none).head?.any (fun run ↦
      sofar && run.all (· == some true)) ||
        (truths.splitOn none).tail.any fun run ↦ run.all (· == some true)) := by
  induction truths generalizing sofar with
  | nil => simp [runHoldsFrom]
  | cons value rest ih =>
    rw [List.splitOn_cons_eq_if_modifyHead]
    have hsplit := List.splitOn_ne_nil none rest
    cases value with
    | none =>
      rw [runHoldsFrom, ih true]
      generalize rest.splitOn none = runs at hsplit
      cases runs with
      | nil => exact absurd rfl hsplit
      | cons run runs => simp
    | some value =>
      rw [runHoldsFrom, ih (sofar && value)]
      generalize rest.splitOn none = runs at hsplit
      cases runs with
      | nil => exact absurd rfl hsplit
      | cons run runs => simp [Bool.and_assoc]

/-- With nothing read before, some run holds. -/
theorem runHoldsFrom_true (truths : List (Option Bool)) :
    runHoldsFrom true truths = someRunHolds truths := by
  rw [runHoldsFrom_eq, someRunHolds]
  have hsplit := List.splitOn_ne_nil none truths
  generalize truths.splitOn none = runs at hsplit
  cases runs with
  | nil => exact absurd rfl hsplit
  | cons run runs => simp

/-- Without markers there is one run. -/
theorem runHoldsFrom_of_notMem {truths : List (Option Bool)} (h : none ∉ truths) (sofar : Bool) :
    runHoldsFrom sofar truths = (sofar && truths.all (· == some true)) := by
  rw [runHoldsFrom_eq, List.splitOn_eq_singleton h]
  simp

namespace Tree

theorem holds_eq_runHoldsFrom (truth : α → Bool) (tree : Tree α) :
    tree.holds truth = runHoldsFrom true (Entry.truths truth tree) :=
  (runHoldsFrom_true _).symm

/-- Without markers, every entry has to hold. -/
theorem holds_iff_of_hasOr_eq_false {tree : Tree α} (h : tree.hasOr = false) {truth : α → Bool} :
    tree.holds truth = true ↔ ∀ entry ∈ tree, entry.truth? truth = some true := by
  have hnone : none ∉ Entry.truths truth tree := by
    rw [Entry.truths_eq_map, List.mem_map]
    intro hexists
    rcases hexists with ⟨entry, hmem, heq⟩
    have hor : entry.isOr = false := by simpa using List.any_eq_false.1 h entry hmem
    cases entry with
    | or => cases hor
    | group conditions => cases heq
    | nested entries => cases heq
  have hall : tree.holds truth = tree.all fun entry ↦ entry.truth? truth == some true := by
    calc
      _ = runHoldsFrom true (Entry.truths truth tree) := holds_eq_runHoldsFrom truth tree
      _ = (Entry.truths truth tree).all (· == some true) := by
        rw [runHoldsFrom_of_notMem hnone, Bool.true_and]
      _ = _ := by
        rw [Entry.truths_eq_map, List.all_map]
        rfl
  simp only [hall, List.all_eq_true, beq_iff_eq]

end Tree

/-! ## Changing the leaves -/

namespace Entry

mutual

theorem truth?_mapLeaves (truth : β → Bool) (f : α → β) (entry : Entry α) :
    (entry.mapLeaves f).truth? truth = entry.truth? fun leaf ↦ truth (f leaf) := by
  cases entry with
  | or => rfl
  | group conditions =>
    rw [mapLeaves, truth?, truth?, List.all_map]
    rfl
  | nested entries => rw [mapLeaves, truth?, truth?, truths_mapLeavesAll truth f entries]

theorem truths_mapLeavesAll (truth : β → Bool) (f : α → β) (entries : List (Entry α)) :
    truths truth (mapLeavesAll f entries) = truths (fun leaf ↦ truth (f leaf)) entries := by
  cases entries with
  | nil => rfl
  | cons entry rest =>
    rw [mapLeavesAll, truths, truths, truth?_mapLeaves truth f entry,
      truths_mapLeavesAll truth f rest]

end

end Entry

/-- The truth of a leaf decides, whatever stands for it. -/
theorem Tree.holds_mapLeaves (truth : β → Bool) (f : α → β) (tree : Tree α) :
    (tree.mapLeaves f).holds truth = tree.holds fun leaf ↦ truth (f leaf) := by
  rw [Tree.holds, Tree.mapLeaves, Entry.truths_mapLeavesAll, Tree.holds]

end IndexedSearch.Filter
