import IndexedSearch.Proofs.Expression.Shape

/-!
# Truth of expressions

The store judges a level from left to right. `AND` binds tighter than `OR`: what stands behind an
`OR` starts a conjunction of its own. A level that stands for a filter tree is true just if the tree
holds.
-/

namespace IndexedSearch.Expression

open IndexedSearch.Filter (Entry runHoldsFrom)

variable {α : Type} (truth : α → Bool)

namespace Factor

mutual

/-- The truth value of a factor. -/
def holds : Factor α → Bool
  | atom value => truth value
  | parens first rest => holdsFrom (holds first) rest

/-- The truth value of factors behind a conjunction of which the truth value is known. -/
def holdsFrom (sofar : Bool) : List (Connective × Factor α) → Bool
  | [] => sofar
  | (.and, factor) :: rest => holdsFrom (sofar && holds factor) rest
  | (.or, factor) :: rest => sofar || holdsFrom (holds factor) rest

end

end Factor

/-- The truth value of a level. -/
def Level.holds (level : Level α) : Bool :=
  Factor.holdsFrom truth (level.first.holds truth) level.rest

namespace Factor

variable {truth}

theorem holdsFrom_of_conjuncts? {factors : List (Connective × Factor α)} {values : List α}
    (h : conjuncts? factors = some values) (sofar : Bool) :
    holdsFrom truth sofar factors = (sofar && values.all truth) := by
  induction factors generalizing sofar values with
  | nil =>
    cases h
    simp [holdsFrom]
  | cons link rest ih =>
    obtain ⟨value, others, rfl, hothers, rfl⟩ := conjuncts?_cons_eq_some_iff.1 h
    rw [holdsFrom, ih hothers, holds, List.all_cons, Bool.and_assoc]

mutual

/-- A factor is true just if the entry that it stands for is. -/
theorem truth?_of_part? {factor : Factor α} {entry : Entry α} (h : factor.part? = some entry) :
    entry.truth? truth = some (factor.holds truth) := by
  match factor with
  | atom value => cases h
  | parens (atom value) rest =>
    rw [part?] at h
    obtain ⟨others, hothers, rfl⟩ := Option.map_eq_some_iff.1 h
    rw [Entry.truth?, holds, holds, holdsFrom_of_conjuncts? hothers, List.all_cons]
  | parens (parens first others) rest =>
    obtain ⟨head, entries, hhead, hentries, rfl⟩ := part?_parens_eq_some_iff.1 h
    have hfirst := truth?_of_part? hhead
    calc
      _ = some (runHoldsFrom true (Entry.truths truth (head :: entries))) := by
        rw [Entry.truth?, ← Filter.runHoldsFrom_true]
      _ = some (runHoldsFrom ((parens first others).holds truth) (Entry.truths truth entries)) := by
        rw [Entry.truths, hfirst, runHoldsFrom, Bool.true_and]
      _ = _ := by
        rw [runHoldsFrom_of_parts? hentries]
        rfl

/-- Factors are true behind a conjunction just if the entries that they stand for are. -/
theorem runHoldsFrom_of_parts? {factors : List (Connective × Factor α)}
    {entries : List (Entry α)} (h : parts? factors = some entries) {sofar : Bool} :
    runHoldsFrom sofar (Entry.truths truth entries) = holdsFrom truth sofar factors := by
  match factors with
  | [] =>
    cases h
    rfl
  | (.and, factor) :: rest =>
    obtain ⟨entry, others, hentry, hothers, rfl⟩ := parts?_and_eq_some_iff.1 h
    rw [Entry.truths, truth?_of_part? hentry, runHoldsFrom, runHoldsFrom_of_parts? hothers,
      holdsFrom]
  | (.or, factor) :: rest =>
    obtain ⟨entry, others, hentry, hothers, rfl⟩ := parts?_or_eq_some_iff.1 h
    have hfactor := truth?_of_part? hentry
    calc
      _ = (sofar || runHoldsFrom true (Entry.truths truth (entry :: others))) := by
        rw [Entry.truths, Entry.truth?, runHoldsFrom]
      _ = (sofar || runHoldsFrom (factor.holds truth) (Entry.truths truth others)) := by
        rw [Entry.truths, hfactor, runHoldsFrom, Bool.true_and]
      _ = _ := by rw [runHoldsFrom_of_parts? hothers, holdsFrom]

end

/-- Atoms in conjunction are true together. -/
theorem holdsFrom_alsoAtoms (sofar : Bool) (values : List α) :
    holdsFrom truth sofar (alsoAtoms values) = (sofar && values.all truth) :=
  holdsFrom_of_conjuncts? (conjuncts?_alsoAtoms values) sofar

end Factor

namespace Level

variable {truth}

/-- A level is true just if the tree that it stands for holds. -/
theorem holds_of_tree? {level : Level α} {tree : Filter.Tree α} (h : level.tree? = some tree) :
    level.holds truth = tree.holds truth := by
  obtain ⟨entry, entries, hentry, hentries, rfl⟩ := tree?_eq_some_iff.1 h
  calc
    _ = runHoldsFrom (level.first.holds truth) (Entry.truths truth entries) := by
      rw [Factor.runHoldsFrom_of_parts? hentries, holds]
    _ = runHoldsFrom true (Entry.truths truth (entry :: entries)) := by
      rw [Entry.truths, Factor.truth?_of_part? hentry, runHoldsFrom, Bool.true_and]
    _ = _ := by rw [Filter.Tree.holds_eq_runHoldsFrom]

/-- The level of a well-formed tree is true just if the tree holds, and so is that of no entries. -/
theorem holds_ofTree? {tree : Filter.Tree α} (h : tree.IsWellFormed) :
    ((ofTree? tree).map (holds truth)).getD true = tree.holds truth := by
  rcases ofTree?_cases h with ⟨rfl, hnone⟩ | ⟨level, hlevel, htree⟩
  · rw [hnone, Filter.Tree.holds_eq_runHoldsFrom]
    rfl
  · rw [hlevel, Option.map_some, Option.getD_some, holds_of_tree? htree]

/-- A conjunction is true just if all of its atoms are, and so is that of no atoms. -/
theorem holds_conjunction? (values : List α) :
    ((conjunction? values).map (holds truth)).getD true = values.all truth := by
  cases values with
  | nil => rfl
  | cons value others => exact Factor.holdsFrom_alsoAtoms (truth value) others

end Level

end IndexedSearch.Expression
