import IndexedSearch.Filter.Path

/-!
# Filter trees

A filter is a list of entries: groups of conditions, nested filters, and markers between the
branches of a disjunction. Entries without a marker between them are in conjunction, which binds
tighter than disjunction; the conditions of a group are in conjunction, too.

What stands at the leaves is a parameter. The filter of a caller has clauses there, each a path and
a condition; an expression for the store has the same shape with other leaves.
-/

namespace IndexedSearch.Filter

/-- An entry of a filter tree. -/
inductive Entry (α : Type) where
  | or
  | group (conditions : List α)
  | nested (entries : List (Entry α))

/-- A filter tree: the entries of its outermost level. -/
abbrev Tree (α : Type) := List (Entry α)

/-- A condition on the attribute, or part of one, that a path leads to. -/
structure Clause where
  path : Path
  condition : Condition

namespace Entry

variable {α β : Type}

/-- The entry is the marker between two branches of a disjunction. -/
def isOr : Entry α → Bool
  | or => true
  | _ => false

mutual

/-- The entry with every leaf changed. -/
def mapLeaves (f : α → β) : Entry α → Entry β
  | or => or
  | group conditions => group (conditions.map f)
  | nested entries => nested (mapLeavesAll f entries)

/-- Entries with every leaf changed. -/
def mapLeavesAll (f : α → β) : List (Entry α) → List (Entry β)
  | [] => []
  | entry :: rest => mapLeaves f entry :: mapLeavesAll f rest

end

mutual

/-- The leaves of an entry from left to right. -/
def leaves : Entry α → List α
  | or => []
  | group conditions => conditions
  | nested entries => leavesAll entries

/-- The leaves of entries one after another. -/
def leavesAll : List (Entry α) → List α
  | [] => []
  | entry :: rest => leaves entry ++ leavesAll rest

end

end Entry

namespace Entry

variable {α β : Type}

mutual

theorem leaves_mapLeaves (f : α → β) (entry : Entry α) :
    (entry.mapLeaves f).leaves = entry.leaves.map f := by
  cases entry with
  | or => rfl
  | group conditions => rfl
  | nested entries => exact leavesAll_mapLeavesAll f entries

theorem leavesAll_mapLeavesAll (f : α → β) (entries : List (Entry α)) :
    leavesAll (mapLeavesAll f entries) = (leavesAll entries).map f := by
  cases entries with
  | nil => rfl
  | cons entry rest =>
    simp [mapLeavesAll, leavesAll, leaves_mapLeaves f entry, leavesAll_mapLeavesAll f rest]

end

end Entry

/-- The place of a condition in a group of the outermost level. -/
structure Position where
  entry : Nat
  condition : Nat
deriving DecidableEq

/-- A condition of the outermost level, with its place. -/
structure Term where
  position : Position
  clause : Clause

namespace Tree

variable {α β : Type}

/-- The tree with every leaf changed. -/
def mapLeaves (f : α → β) (tree : Tree α) : Tree β := Entry.mapLeavesAll f tree

/-- The leaves from left to right. -/
def leaves (tree : Tree α) : List α := Entry.leavesAll tree

/-- Changing every leaf changes the list of leaves one by one. -/
@[simp] theorem leaves_mapLeaves (f : α → β) (tree : Tree α) :
    (tree.mapLeaves f).leaves = tree.leaves.map f :=
  Entry.leavesAll_mapLeavesAll f tree

/-- The outermost level has a marker. -/
def hasOr (tree : Tree α) : Bool := tree.any Entry.isOr

/--
The conditions that every match has to satisfy: those in the groups of the outermost level, unless
it is a disjunction.
-/
def terms (tree : Tree Clause) : List Term :=
  if tree.hasOr then []
  else
    tree.zipIdx.flatMap fun (entry, i) ↦
      match entry with
      | .group conditions => conditions.zipIdx.map fun (clause, j) ↦ ⟨⟨i, j⟩, clause⟩
      | _ => []

/-- The tree without the conditions at the given places. Groups stay, also when they get empty. -/
def without (positions : List Position) (tree : Tree α) : Tree α :=
  tree.zipIdx.map fun (entry, i) ↦
    match entry with
    | .group conditions =>
      .group ((conditions.zipIdx.filter fun (_, j) ↦ ⟨i, j⟩ ∉ positions).map Prod.fst)
    | entry => entry

/-- The first mistake in the number of operands, from left to right. -/
def operandError? (tree : Tree Clause) : Option UsageError :=
  tree.leaves.findSome? fun clause ↦ clause.condition.operandError?

end Tree

/-! ## The serialized form -/

namespace Clause

def toJson (clause : Clause) : Json :=
  .array [clause.path.toJson, clause.condition.toJson]

def ofJson? : Json → Option Clause
  | .array [path, condition] => do
    return ⟨← Path.ofJson? path, ← Condition.ofJson? condition⟩
  | _ => none

end Clause

namespace Entry

mutual

/-- An entry as a variant: a marker without payload, a group or a nested tree as a record. -/
def toJson : Entry Clause → Json
  | or => .string "Or"
  | group conditions =>
    .object [("Group", .object [("conditions", .array (conditions.map Clause.toJson))])]
  | nested entries => .object [("Nested", .object [("entries", .array (toJsons entries))])]

/-- The serialized entries of a level. -/
def toJsons : List (Entry Clause) → List Json
  | [] => []
  | entry :: rest => toJson entry :: toJsons rest

end

mutual

/-- Reads an entry. -/
def ofJson? : Json → Option (Entry Clause)
  | .string "Or" => some or
  | .object [("Or", .null)] => some or
  | .object [("Group", .object fields)] =>
    (Json.required? fields "conditions" (Json.listOf? Clause.ofJson?)).map group
  | .object [("Nested", .object fields)] => (ofFields? fields).map nested
  | _ => none

/-- Reads the entries of a level. -/
def ofJsons? : List Json → Option (List (Entry Clause))
  | [] => some []
  | entry :: rest => do return (← ofJson? entry) :: (← ofJsons? rest)

/-- The entries of a level among the fields of its object. -/
def ofFields? : List (String × Json) → Option (List (Entry Clause))
  | [] => none
  | (name, .array entries) :: rest =>
    if name = "entries" then ofJsons? entries else ofFields? rest
  | (name, _) :: rest => if name = "entries" then none else ofFields? rest

end

end Entry

namespace Tree

def toJson (tree : Tree Clause) : Json :=
  .object [("entries", .array (Entry.toJsons tree))]

/-- Reads a tree as it is: markers at the ends and empty entries are kept. Trees and groups are
records, and are read from objects only, not from arrays of their fields. -/
def ofJson? : Json → Option (Tree Clause)
  | .object fields => Entry.ofFields? fields
  | _ => none

end Tree

end IndexedSearch.Filter
