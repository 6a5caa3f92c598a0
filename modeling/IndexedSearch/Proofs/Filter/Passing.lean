import IndexedSearch.Proofs.Filter.Levels
import IndexedSearch.Proofs.Filter.Remaining
import IndexedSearch.Proofs.Outcome

/-!
# Conditions passed to a builder

A tree is built just if all texts that are passed as paths, at whatever depth of groups, are paths;
otherwise the first of them that is none is reported. The tree then has just the conditions that
were passed, each once and in the order in which they were passed, and going through the tree
visits them in this order.
-/

namespace IndexedSearch.Filter

/-- The text is the written form of a path. -/
def Path.IsText (text : String) : Prop := ∃ path : Path, path.text = text

theorem Path.ofText?_eq_none_iff {text : String} : ofText? text = none ↔ ¬ IsText text := by
  rw [Option.eq_none_iff_forall_ne_some, IsText, not_exists]
  simp only [ne_eq, ofText?_eq_some_iff]

/-- The text of the path of a clause and its condition, as they are passed to a builder. -/
def Clause.passed (clause : Clause) : String × Condition := (clause.path.text, clause.condition)

/-- The conditions of a tree, as they are passed to a builder. -/
def Tree.passed (tree : Tree Clause) : List (String × Condition) := tree.leaves.map Clause.passed

namespace Step

mutual

/-- The conditions that a step passes, those of the steps of a group one after another. -/
def conditions : Step → List (String × Condition)
  | .filter path condition => [(path, condition)]
  | .filterAll conditions => conditions
  | .or => []
  | .and => []
  | .group steps => conditionsAll steps

/-- The conditions that steps pass one after another. -/
def conditionsAll : List Step → List (String × Condition)
  | [] => []
  | step :: rest => conditions step ++ conditionsAll rest

end

end Step

/-! ## Going through a tree -/

namespace Entry

variable {α : Type} {m : Type → Type} [Monad m]

mutual

/-- Visits the conditions of an entry from left to right, at any depth. -/
def visit (visitor : α → m Unit) : Entry α → m Unit
  | or => pure ()
  | group conditions => conditions.forM visitor
  | nested entries => visitAll visitor entries

/-- Visits the conditions of entries one after another. -/
def visitAll (visitor : α → m Unit) : List (Entry α) → m Unit
  | [] => pure ()
  | entry :: rest => do
    visit visitor entry
    visitAll visitor rest

end

mutual

theorem visit_eq_forM [LawfulMonad m] (visitor : α → m Unit) (entry : Entry α) :
    entry.visit visitor = entry.leaves.forM visitor := by
  cases entry with
  | or => rfl
  | group conditions => rfl
  | nested entries => exact visitAll_eq_forM visitor entries

theorem visitAll_eq_forM [LawfulMonad m] (visitor : α → m Unit) (entries : List (Entry α)) :
    visitAll visitor entries = (leavesAll entries).forM visitor := by
  cases entries with
  | nil => rfl
  | cons entry rest =>
    rw [visitAll, visit_eq_forM visitor entry, visitAll_eq_forM visitor rest, leavesAll]
    exact List.forM_append.symm

end

end Entry

/-- Visits the conditions of a tree from left to right, at any depth. -/
def Tree.visit {α : Type} {m : Type → Type} [Monad m] (visitor : α → m Unit) (tree : Tree α) :
    m Unit :=
  Entry.visitAll visitor tree

/-! ## Texts that are no paths -/

/-- The first text that is no path. -/
def firstBadPath? (conditions : List (String × Condition)) : Option String :=
  (conditions.find? fun (path, _) ↦ (Path.ofText? path).isNone).map Prod.fst

theorem firstBadPath?_append (conditions others : List (String × Condition)) :
    firstBadPath? (conditions ++ others) =
      (firstBadPath? conditions).or (firstBadPath? others) := by
  rw [firstBadPath?, List.find?_append, firstBadPath?, firstBadPath?]
  cases conditions.find? _ <;> rfl

theorem firstBadPath?_eq_none_iff {conditions : List (String × Condition)} :
    firstBadPath? conditions = none ↔ ∀ passed ∈ conditions, Path.IsText passed.1 := by
  simp only [firstBadPath?, Option.map_eq_none_iff, List.find?_eq_none, Option.isNone_iff_eq_none,
    Path.ofText?_eq_none_iff, Classical.not_not]

theorem firstBadPath?_eq_some_iff {conditions : List (String × Condition)} {path : String} :
    firstBadPath? conditions = some path ↔
      ∃ before condition after, conditions = before ++ (path, condition) :: after ∧
        (∀ earlier ∈ before, Path.IsText earlier.1) ∧ ¬ Path.IsText path := by
  have hgood (earlier : String × Condition) :
      (!(Path.ofText? earlier.1).isNone) = true ↔ Path.IsText earlier.1 := by
    rw [Bool.not_eq_true', Bool.eq_false_iff, ne_eq, Option.isNone_iff_eq_none,
      Path.ofText?_eq_none_iff, Classical.not_not]
  rw [firstBadPath?, Option.map_eq_some_iff]
  simp only [List.find?_eq_some_iff_append, hgood, Option.isNone_iff_eq_none,
    Path.ofText?_eq_none_iff]
  constructor
  · intro hexists
    obtain ⟨⟨_, condition⟩, ⟨hbad, before, after, hconditions, hbefore⟩, rfl⟩ := hexists
    exact ⟨before, condition, after, hconditions, hbefore, hbad⟩
  · intro hexists
    obtain ⟨before, condition, after, hconditions, hbefore, hbad⟩ := hexists
    exact ⟨(path, condition), ⟨hbad, before, after, hconditions, hbefore⟩, rfl⟩

namespace Builder

variable {builder child : Builder} {conditions : List (String × Condition)}

theorem badPath_reject (builder : Builder) (badPath : Option String) :
    (builder.reject badPath).badPath = builder.badPath.or badPath := by
  rw [reject]
  cases builder.badPath <;> rfl

theorem badPath_filterAll (builder : Builder) (conditions : List (String × Condition)) :
    (builder.filterAll conditions).badPath = builder.badPath.or (firstBadPath? conditions) := by
  rw [← badPath_reject, filterAll]
  split <;> rfl

theorem badPath_or (builder : Builder) : builder.or.badPath = builder.badPath := by
  unfold or
  split <;> rfl

theorem badPath_group (builder child : Builder) :
    (builder.group child).badPath = builder.badPath.or child.badPath := by
  unfold group
  split
  · rename_i path hbad
    rw [hbad, badPath_reject]
  · rename_i hbad
    rw [hbad, Option.or_none]
    split <;> rfl

mutual

/-- A step remembers the first of its own texts that is no path, unless there is an earlier one. -/
theorem badPath_apply (builder : Builder) (step : Step) :
    (builder.apply step).badPath = builder.badPath.or (firstBadPath? step.conditions) := by
  cases step with
  | filter path condition => exact badPath_filterAll builder [(path, condition)]
  | filterAll conditions => exact badPath_filterAll builder conditions
  | or => exact (badPath_or builder).trans Option.or_none.symm
  | and => exact Option.or_none.symm
  | group steps =>
    rw [apply, badPath_group, badPath_applyAll empty steps]
    rfl

theorem badPath_applyAll (builder : Builder) (steps : List Step) :
    (builder.applyAll steps).badPath =
      builder.badPath.or (firstBadPath? (Step.conditionsAll steps)) := by
  cases steps with
  | nil => exact Option.or_none.symm
  | cons step rest =>
    rw [applyAll, badPath_applyAll (builder.apply step) rest, badPath_apply builder step,
      Step.conditionsAll, firstBadPath?_append, Option.or_assoc]

end

/-! ## What is added -/

theorem passed_push (builder : Builder) (entry : Entry Clause) :
    (builder.push entry).entries.passed =
      builder.entries.passed ++ entry.leaves.map Clause.passed := by
  simp [push, Tree.passed, Tree.leaves, Entry.leavesAll_eq_flatMap]

/-- Conditions whose paths can all be read are passed on as they are. -/
theorem map_passed_filterMap (h : ∀ passed ∈ conditions, Path.IsText passed.1) :
    (conditions.filterMap fun (path, condition) ↦
      (Path.ofText? path).map fun path ↦ (⟨path, condition⟩ : Clause)).map Clause.passed =
        conditions := by
  induction conditions with
  | nil => rfl
  | cons first rest ih =>
    obtain ⟨⟨path, hpath⟩, hrest⟩ := List.forall_mem_cons.1 h
    obtain ⟨text, condition⟩ := first
    have hread : Path.ofText? text = some path := Path.ofText?_eq_some_iff.2 hpath
    simp only [List.filterMap_cons, hread, Option.map_some, List.map_cons, ih hrest]
    exact congrArg (fun text ↦ (text, condition) :: rest) hpath

theorem passed_filterAll (builder : Builder) (h : firstBadPath? conditions = none) :
    (builder.filterAll conditions).entries.passed = builder.entries.passed ++ conditions := by
  have hclauses := map_passed_filterMap (firstBadPath?_eq_none_iff.1 h)
  unfold filterAll
  dsimp only
  split
  · -- Without clauses there were no conditions.
    rename_i hempty
    rw [List.isEmpty_iff.1 hempty] at hclauses
    rw [← hclauses, List.map_nil, List.append_nil]
    rfl
  · rw [passed_push, Entry.leaves, hclauses]
    rfl

theorem passed_or (builder : Builder) : builder.or.entries.passed = builder.entries.passed := by
  unfold or
  split
  · rfl
  · rfl
  · rw [passed_push, Entry.leaves, List.map_nil, List.append_nil]

/-- The marker that building drops has no conditions. -/
theorem passed_finished (builder : Builder) :
    builder.finished.passed = builder.entries.passed := by
  unfold finished
  split
  · rename_i hlast
    obtain ⟨before, hentries⟩ := List.getLast?_eq_some_iff.1 hlast
    rw [hentries, List.dropLast_concat]
    simp [Tree.passed, Tree.leaves, Entry.leavesAll_eq_flatMap, Entry.leaves]
  · rfl

theorem passed_group (builder : Builder) (h : child.badPath = none) :
    (builder.group child).entries.passed = builder.entries.passed ++ child.entries.passed := by
  rw [← passed_finished child]
  unfold group
  rw [h]
  dsimp only
  split
  · rename_i hempty
    rw [List.isEmpty_iff.1 hempty]
    exact (List.append_nil _).symm
  · exact passed_push builder _

mutual

/-- A step whose paths can all be read adds its conditions at the end. -/
theorem passed_apply (builder : Builder) (step : Step)
    (h : firstBadPath? step.conditions = none) :
    (builder.apply step).entries.passed = builder.entries.passed ++ step.conditions := by
  cases step with
  | filter path condition => exact passed_filterAll builder h
  | filterAll conditions => exact passed_filterAll builder h
  | or => exact (passed_or builder).trans (List.append_nil _).symm
  | and => exact (List.append_nil _).symm
  | group steps =>
    have hchild : (applyAll empty steps).badPath = none := (badPath_applyAll empty steps).trans h
    rw [apply, passed_group builder hchild, passed_applyAll empty steps h]
    rfl

theorem passed_applyAll (builder : Builder) (steps : List Step)
    (h : firstBadPath? (Step.conditionsAll steps) = none) :
    (builder.applyAll steps).entries.passed =
      builder.entries.passed ++ Step.conditionsAll steps := by
  cases steps with
  | nil => exact (List.append_nil _).symm
  | cons step rest =>
    rw [Step.conditionsAll, firstBadPath?_append, Option.or_eq_none_iff] at h
    rw [applyAll, passed_applyAll (builder.apply step) rest h.2, passed_apply builder step h.1,
      Step.conditionsAll, List.append_assoc]

end

end Builder

/-! ## The tree -/

namespace Tree

variable {steps : List Step} {tree : Tree Clause}

theorem ofSteps_eq_ok_iff :
    ofSteps steps = .ok tree ↔
      firstBadPath? (Step.conditionsAll steps) = none ∧
        (Builder.empty.applyAll steps).finished = tree := by
  have hbad : (Builder.empty.applyAll steps).badPath =
      firstBadPath? (Step.conditionsAll steps) := Builder.badPath_applyAll .empty steps
  rw [ofSteps, Builder.build, hbad]
  cases firstBadPath? (Step.conditionsAll steps) with
  | none => simp [pure_eq_ok_iff]
  | some path => simp [throw_ne_ok]

theorem ofSteps_eq_error_iff {error : UsageError} :
    ofSteps steps = .error error ↔
      ∃ path, firstBadPath? (Step.conditionsAll steps) = some path ∧
        UsageError.invalidPath path = error := by
  have hbad : (Builder.empty.applyAll steps).badPath =
      firstBadPath? (Step.conditionsAll steps) := Builder.badPath_applyAll .empty steps
  rw [ofSteps, Builder.build, hbad]
  cases firstBadPath? (Step.conditionsAll steps) with
  | none => simp [pure_ne_error]
  | some path => simp [throw_eq_error_iff]

theorem passed_of_ofSteps (h : ofSteps steps = .ok tree) :
    tree.passed = Step.conditionsAll steps := by
  obtain ⟨hbad, rfl⟩ := ofSteps_eq_ok_iff.1 h
  rw [Builder.passed_finished]
  exact Builder.passed_applyAll .empty steps hbad

/--
Steps build a tree just if all texts passed as paths are paths, and else report the first that is
none. Going through the tree visits the conditions that were passed, in the order of passing.
-/
theorem ofSteps_passes (steps : List Step) :
    ((∃ tree, ofSteps steps = .ok tree) ↔
      ∀ passed ∈ Step.conditionsAll steps, Path.IsText passed.1) ∧
    (∀ error, ofSteps steps = .error error ↔
      ∃ before path condition after,
        Step.conditionsAll steps = before ++ (path, condition) :: after ∧
        (∀ earlier ∈ before, Path.IsText earlier.1) ∧ ¬ Path.IsText path ∧
        UsageError.invalidPath path = error) ∧
    ∀ tree, ofSteps steps = .ok tree → ∃ clauses : List Clause,
      clauses.map Clause.passed = Step.conditionsAll steps ∧
      ∀ (m : Type → Type) [Monad m] [LawfulMonad m] (visitor : Clause → m Unit),
        tree.visit visitor = clauses.forM visitor := by
  refine ⟨?_, ?_, ?_⟩
  · simp only [ofSteps_eq_ok_iff, exists_and_left, exists_eq', and_true, firstBadPath?_eq_none_iff]
  · intro error
    simp only [ofSteps_eq_error_iff, firstBadPath?_eq_some_iff]
    constructor
    · intro hexists
      obtain ⟨path, ⟨before, condition, after, hpassed, hbefore, hpath⟩, herror⟩ := hexists
      exact ⟨before, path, condition, after, hpassed, hbefore, hpath, herror⟩
    · intro hexists
      obtain ⟨before, path, condition, after, hpassed, hbefore, hpath, herror⟩ := hexists
      exact ⟨path, ⟨before, condition, after, hpassed, hbefore, hpath⟩, herror⟩
  · intro tree htree
    refine ⟨tree.leaves, passed_of_ofSteps htree, ?_⟩
    intro m _ _ visitor
    exact Entry.visitAll_eq_forM visitor tree

theorem ofSteps_passes_example :
    ofSteps looseSteps = .ok tightTree ∧ ∃ clauses : List Clause,
      clauses.map Clause.passed = Step.conditionsAll looseSteps ∧
      ∀ (m : Type → Type) [Monad m] [LawfulMonad m] (visitor : Clause → m Unit),
        tightTree.visit visitor = clauses.forM visitor :=
  ⟨ofSteps_looseSteps, (ofSteps_passes looseSteps).2.2 tightTree ofSteps_looseSteps⟩

/-- The first of two texts that are no paths is reported, although a group hides it. -/
example :
    ofSteps [.filter "a" .present, .group [.or, .filter "b..c" .present], .filter "" .absent] =
      .error (.invalidPath "b..c") := rfl

end Tree

end IndexedSearch.Filter
