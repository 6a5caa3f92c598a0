import IndexedSearch.Catalog.Schema
import IndexedSearch.Filter.Tree

/-!
# Atoms of expressions

An atom is a condition as the store sees it: an attribute path, an operator and operands. Names and
operands do not stand in the text of an expression but in two tables beside it, and the text refers
to them by numbered placeholders. `Atom.number` gives the names and operands of an atom the next
free numbers, from left to right, so that no number is used twice.
-/

namespace IndexedSearch.Expression

open IndexedSearch.Filter (Clause Operator)

/-- A condition on a path of names `ν` with operands `ω`. -/
structure Atom (ν ω : Type) where
  path : List ν
  operator : Operator
  operands : List ω
deriving DecidableEq

/-- An atom that holds its names and operands. -/
abbrev Resolved := Atom String Wire.Value

/-- An atom that refers to its names and operands by their numbers. -/
abbrev Numbered := Atom Nat Nat

/-- The attribute names along a path: the first one is the stored name of its attribute. -/
def physicalPath (schema : Schema) (path : Filter.Path) : List String :=
  schema.physicalName path.root :: path.inner

/-- A clause of a filter as an atom. -/
def Resolved.ofClause (schema : Schema) (clause : Clause) : Resolved :=
  { path := physicalPath schema clause.path
    operator := clause.condition.operator
    operands := clause.condition.operands.map Wire.Value.ofDocument }

/-- The next free number of a name and of an operand. -/
structure Counter where
  name : Nat
  value : Nat
deriving DecidableEq

namespace Counter

/-- Nothing is numbered yet. -/
def start : Counter := ⟨0, 0⟩

/-- The next free numbers behind atoms that were numbered from here on. -/
def after {ν ω : Type} (counter : Counter) (atoms : List (Atom ν ω)) : Counter :=
  ⟨counter.name + (atoms.flatMap Atom.path).length,
    counter.value + (atoms.flatMap Atom.operands).length⟩

end Counter

namespace Atom

variable {ν ω : Type}

/-- The atom with the next free numbers for its names and operands. -/
def number (counter : Counter) (atom : Atom ν ω) : Numbered :=
  { path := List.range' counter.name atom.path.length
    operator := atom.operator
    operands := List.range' counter.value atom.operands.length }

end Atom

/-- Paths of names numbered one after another. -/
def numberPaths {ν : Type} (next : Nat) : List (List ν) → List (List Nat)
  | [] => []
  | path :: rest => List.range' next path.length :: numberPaths (next + path.length) rest

/-! ## Text -/

/-- The placeholder of a name. -/
def namePlaceholder (index : Nat) : String := "#n" ++ index.repr

/-- The placeholder of an operand. -/
def valuePlaceholder (index : Nat) : String := ":v" ++ index.repr

/-- The placeholders of a path, with dots between them. -/
def pathText (path : List Nat) : String :=
  ".".intercalate (path.map namePlaceholder)

/--
The text of a numbered atom. Operators are written between the path and the operands or, where they
are functions, in front of both. Every operand is written, however many there are.
-/
def Numbered.text (atom : Numbered) : String :=
  let path := pathText atom.path
  let operands := atom.operands.map valuePlaceholder
  match atom.operator with
  | .eq | .ne | .lt | .le | .gt | .ge =>
    path ++ " " ++ atom.operator.symbol ++ " " ++ ", ".intercalate operands
  | .between => path ++ " BETWEEN " ++ " AND ".intercalate operands
  | .isIn => path ++ " IN (" ++ ", ".intercalate operands ++ ")"
  | .beginsWith | .contains | .exists | .notExists =>
    atom.operator.symbol ++ "(" ++ ", ".intercalate (path :: operands) ++ ")"

end IndexedSearch.Expression
