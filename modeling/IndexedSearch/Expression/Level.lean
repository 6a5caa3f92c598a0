import IndexedSearch.Expression.Atom

/-!
# Levels of expressions

A level of an expression is a run of factors with `AND` or `OR` between them; a factor is an atom or
another level in parentheses. `Level.ofTree?` makes the level of a filter tree: every group and
every nested tree becomes a factor in parentheses, and what has no conditions is left out.
Numbering and printing go through a level from left to right.
-/

namespace IndexedSearch.Expression

open IndexedSearch.Filter (Entry)

/-- What stands between two factors. -/
inductive Connective where
  | and
  | or
deriving DecidableEq

/-- The spelling of a connective, with a blank on either side. -/
def Connective.text : Connective → String
  | and => " AND "
  | or => " OR "

/-- An atom, or a level in parentheses: its first factor, and the others behind connectives. -/
inductive Factor (α : Type) where
  | atom (value : α)
  | parens (first : Factor α) (rest : List (Connective × Factor α))

/-- A first factor, and others behind connectives. -/
structure Level (α : Type) where
  first : Factor α
  rest : List (Connective × Factor α)

variable {α ν ω : Type}

/-! ## From trees -/

namespace Factor

/-- Atoms in conjunction behind a first one. -/
def alsoAtoms (atoms : List α) : List (Connective × Factor α) :=
  atoms.map fun value ↦ (.and, atom value)

mutual

/-- The factor of an entry, if it has any condition. -/
def ofEntry? : Entry α → Option (Factor α)
  | .or => none
  | .group [] => none
  | .group (value :: others) => some (parens (atom value) (alsoAtoms others))
  | .nested entries =>
    match ofEntries .and entries with
    | [] => none
    | (_, first) :: rest => some (parens first rest)

/--
The factors of the entries of a level, each behind a connective. The marker before an entry asks for
`OR`; an entry without conditions uses the marker up.
-/
def ofEntries (pending : Connective) : List (Entry α) → List (Connective × Factor α)
  | [] => []
  | .or :: rest => ofEntries .or rest
  | entry :: rest =>
    match ofEntry? entry with
    | some factor => (pending, factor) :: ofEntries .and rest
    | none => ofEntries .and rest

end

end Factor

namespace Level

/-- The level of factors behind connectives. The first connective has nothing to connect. -/
def ofFactors? : List (Connective × Factor α) → Option (Level α)
  | [] => none
  | (_, first) :: rest => some ⟨first, rest⟩

/-- The level of a filter tree, if the tree has any condition. -/
def ofTree? (tree : Filter.Tree α) : Option (Level α) :=
  ofFactors? (Factor.ofEntries .and tree)

/-- Atoms in conjunction, if there are any. -/
def conjunction? (atoms : List α) : Option (Level α) :=
  ofFactors? (Factor.alsoAtoms atoms)

end Level

/-! ## Atoms and their numbers -/

namespace Factor

mutual

/-- The atoms of a factor from left to right. -/
def atoms : Factor α → List α
  | atom value => [value]
  | parens first rest => atoms first ++ atomsAll rest

/-- The atoms of factors one after another. -/
def atomsAll : List (Connective × Factor α) → List α
  | [] => []
  | (_, factor) :: rest => atoms factor ++ atomsAll rest

end

mutual

/-- The factor with the next free numbers for its atoms. -/
def number (counter : Counter) : Factor (Atom ν ω) → Factor Numbered
  | atom value => atom (value.number counter)
  | parens first rest => parens (number counter first) (numberAll (counter.after first.atoms) rest)

/-- Factors numbered one after another. -/
def numberAll (counter : Counter) :
    List (Connective × Factor (Atom ν ω)) → List (Connective × Factor Numbered)
  | [] => []
  | (connective, factor) :: rest =>
    (connective, number counter factor) :: numberAll (counter.after factor.atoms) rest

end

end Factor

namespace Level

/-- The atoms of a level from left to right. -/
def atoms (level : Level α) : List α := level.first.atoms ++ Factor.atomsAll level.rest

/-- The level with the next free numbers for its atoms. -/
def number (counter : Counter) (level : Level (Atom ν ω)) : Level Numbered :=
  { first := level.first.number counter
    rest := Factor.numberAll (counter.after level.first.atoms) level.rest }

end Level

/-! ## Text -/

namespace Factor

mutual

/-- The text of a factor. -/
def text : Factor Numbered → String
  | atom value => value.text
  | parens first rest => "(" ++ text first ++ restText rest ++ ")"

/-- The text of factors, each behind its connective. -/
def restText : List (Connective × Factor Numbered) → String
  | [] => ""
  | (connective, factor) :: rest => connective.text ++ text factor ++ restText rest

end

end Factor

/-- The text of a level. -/
def Level.text (level : Level Numbered) : String :=
  level.first.text ++ Factor.restText level.rest

end IndexedSearch.Expression
