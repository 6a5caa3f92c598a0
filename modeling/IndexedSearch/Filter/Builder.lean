import IndexedSearch.Filter.Tree

/-!
# Building a filter step by step

A step adds conditions, a marker, or a group whose steps are carried out by themselves. Steps never
fail: the first text that is no path is remembered, and building the tree reports it. Steps that add
nothing leave no trace, and a marker is kept only between two entries.
-/

namespace IndexedSearch.Filter

/-- A step of building a filter. -/
inductive Step where
  | filter (path : String) (condition : Condition)
  | filterAll (conditions : List (String × Condition))
  | or
  | and
  | group (steps : List Step)

/-- The entries so far, and the first text that is no path. -/
structure Builder where
  entries : Tree Clause
  badPath : Option String

namespace Builder

/-- No entries. -/
def empty : Builder := ⟨[], none⟩

/-- Adds an entry at the end. -/
def push (builder : Builder) (entry : Entry Clause) : Builder :=
  { builder with entries := builder.entries ++ [entry] }

/-- Remembers a text that is no path, unless an earlier one is remembered. -/
def reject (builder : Builder) (badPath : Option String) : Builder :=
  { builder with badPath := builder.badPath <|> badPath }

/-- Adds conditions as one group; those whose path is no path are left out. -/
def filterAll (builder : Builder) (conditions : List (String × Condition)) : Builder :=
  let clauses := conditions.filterMap fun (path, condition) ↦
    (Path.ofText? path).map fun path ↦ ⟨path, condition⟩
  let badPath := (conditions.find? fun (path, _) ↦ (Path.ofText? path).isNone).map Prod.fst
  let builder := builder.reject badPath
  if clauses.isEmpty then builder else builder.push (.group clauses)

/-- Adds one condition. -/
def filter (builder : Builder) (path : String) (condition : Condition) : Builder :=
  builder.filterAll [(path, condition)]

/-- Starts a new branch of a disjunction, unless nothing stands before the marker. -/
def or (builder : Builder) : Builder :=
  match builder.entries.getLast? with
  | none | some .or => builder
  | some _ => builder.push .or

/-- The entries without a marker at the end. -/
def finished (builder : Builder) : Tree Clause :=
  match builder.entries.getLast? with
  | some .or => builder.entries.dropLast
  | _ => builder.entries

/-- Adds what another builder has built as one entry. -/
def group (builder child : Builder) : Builder :=
  match child.badPath with
  | some path => builder.reject (some path)
  | none => if child.finished.isEmpty then builder else builder.push (.nested child.finished)

/-- The tree, or the first text that is no path. -/
def build (builder : Builder) : Except UsageError (Tree Clause) :=
  match builder.badPath with
  | some path => throw (.invalidPath path)
  | none => return builder.finished

mutual

/-- Carries out a step. -/
def apply (builder : Builder) : Step → Builder
  | .filter path condition => builder.filter path condition
  | .filterAll conditions => builder.filterAll conditions
  | .or => builder.or
  | .and => builder
  | .group steps => builder.group (applyAll empty steps)

/-- Carries out steps one after another. -/
def applyAll (builder : Builder) : List Step → Builder
  | [] => builder
  | step :: rest => applyAll (builder.apply step) rest

end

end Builder

/-- The tree that the steps build. -/
def Tree.ofSteps (steps : List Step) : Except UsageError (Tree Clause) :=
  (Builder.empty.applyAll steps).build

end IndexedSearch.Filter
