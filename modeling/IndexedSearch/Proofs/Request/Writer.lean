import IndexedSearch.Proofs.Expression.Joining
import IndexedSearch.Proofs.Expression.Numbering
import IndexedSearch.Proofs.Request.Making
import IndexedSearch.Proofs.Request.PlaceholderTable

/-!
# Writing expressions piece by piece

The conditions of a request can be written in one go, filling the two tables of placeholders on the
way. A condition then asks for its operands by their numbers, and the key condition for its parts by
their places in the filter; where an operand is missing, there is no result. With as many operands
as the operator takes, a condition is written as the numbered atom behind all that was written
before, and the table of operands gains just its operands.
-/

namespace IndexedSearch

open Expression (Atom Connective Counter Factor Level Numbered Resolved namePlaceholder
  valuePlaceholder)
open IndexedSearch.Filter (Clause Entry Operator Position)

/-- The tables of placeholders, as far as they are filled. -/
structure Tables where
  names : NameMap String
  values : NameMap Wire.Value

/-- Writing fills the tables. It has no result where a part that has to be written is missing. -/
abbrev Writer := StateT Tables Option

/-- The condition at a place of the outermost level. -/
def Filter.Tree.conditionAt? {α : Type} (tree : Filter.Tree α) (position : Position) : Option α :=
  match tree[position.entry]? with
  | some (.group conditions) => conditions[position.condition]?
  | _ => none

namespace Writer

variable (schema : Schema)

/-- Enters a name under the next placeholder. -/
def name (entry : String) : Writer String := do
  let tables ← get
  let placeholder := namePlaceholder tables.names.length
  set { tables with names := tables.names.insert placeholder entry }
  return placeholder

/-- Enters an operand under the next placeholder. -/
def value (operand : Json) : Writer String := do
  let tables ← get
  let placeholder := valuePlaceholder tables.values.length
  set { tables with values := tables.values.insert placeholder (.ofDocument operand) }
  return placeholder

/-- Enters the operand of a number, if there is one. -/
def operand (operands : List Json) (i : Nat) : Writer String := do
  let operand ← liftM operands[i]?
  value operand

/-- Writes a path. -/
def path (path : Filter.Path) : Writer String := do
  let names ← (Expression.physicalPath schema path).mapM name
  return ".".intercalate names

/-- Writes an operator with a path that is written already, and the operands that it asks for. -/
def operation (path : String) (operator : Operator) (operands : List Json) : Writer String :=
  match operator with
  | .eq | .ne | .lt | .le | .gt | .ge => do
    let value ← operand operands 0
    return path ++ " " ++ operator.symbol ++ " " ++ value
  | .between => do
    let low ← operand operands 0
    let high ← operand operands 1
    return path ++ " BETWEEN " ++ low ++ " AND " ++ high
  | .isIn => do
    let values ← operands.mapM value
    return path ++ " IN (" ++ ", ".intercalate values ++ ")"
  | .beginsWith | .contains => do
    let value ← operand operands 0
    return operator.symbol ++ "(" ++ path ++ ", " ++ value ++ ")"
  | .exists | .notExists => return operator.symbol ++ "(" ++ path ++ ")"

/-- Writes a condition. -/
def condition (clause : Clause) : Writer String := do
  let path ← path schema clause.path
  operation path clause.condition.operator clause.condition.operands

/-- Writes the conditions at the places of a key. There is no key condition without one at the
place for the hash attribute. -/
def keyCondition (tree : Filter.Tree Clause) (hash range : Option Position) :
    Writer (Option String) :=
  match hash.bind tree.conditionAt? with
  | none => return none
  | some first => do
    let text ← condition schema first
    match range.bind tree.conditionAt? with
    | none => return some text
    | some second =>
      let other ← condition schema second
      return some (text ++ " AND " ++ other)

/-- A text with another piece behind it, if there is one. Only behind no text, the connective is
left out. -/
def joined (text : String) (connective : Connective) : Option String → String
  | none => text
  | some piece => if text.isEmpty then piece else text ++ connective.text ++ piece

mutual

/-- Writes an entry in parentheses, if it has any condition. At the outermost level, the conditions
at the consumed places are left out. -/
def piece (consumed : List Position) (isOutermost : Bool) (i : Nat) :
    Entry Clause → Writer (Option String)
  | .or => return none
  | .group conditions => do
    let unused := conditions.zipIdx.filter fun (_, j) ↦ !(isOutermost && consumed.contains ⟨i, j⟩)
    let texts ← (unused.map Prod.fst).mapM (condition schema)
    return if texts.isEmpty then none else some ("(" ++ " AND ".intercalate texts ++ ")")
  | .nested entries => do
    let text ← pieces consumed false 0 "" .and entries
    return if text.isEmpty then none else some ("(" ++ text ++ ")")

/-- Writes entries behind the text of those before them. A connective is pending until the next
entry, whether or not that has any condition. -/
def pieces (consumed : List Position) (isOutermost : Bool) (i : Nat) (text : String)
    (pending : Connective) : List (Entry Clause) → Writer String
  | [] => return text
  | entry :: rest => do
    let piece? ← piece consumed isOutermost i entry
    pieces consumed isOutermost (i + 1) (joined text pending piece?)
      (if entry.isOr then .or else .and) rest

end

/-- Writes the filter expression. -/
def filter (tree : Filter.Tree Clause) (consumed : List Position) : Writer (Option String) := do
  let text ← pieces schema consumed true 0 "" .and tree
  return if text.isEmpty then none else some text

/-- Writes the key condition and then the filter expression, which leaves out what is part of the
key condition. -/
def conditions (tree : Filter.Tree Clause) (keys : Index.KeyTerms) :
    Writer (Option String × Option String) := do
  let hash := keys.hash.map Filter.Term.position
  let range := keys.range.map Filter.Term.position
  let key ← keyCondition schema tree hash range
  let filter ← filter schema tree (if key.isSome then hash.toList ++ range.toList else [])
  return (key, filter)

end Writer

/-! ## Tables of placeholders -/

namespace Tables

/-- The tables of names and operands that were entered one after another. -/
def ofLists (names : List String) (values : List Wire.Value) : Tables :=
  ⟨Plan.placeholderTable namePlaceholder names, Plan.placeholderTable valuePlaceholder values⟩

/-- The tables behind atoms that were written one after another. -/
def ofAtoms (atoms : List Resolved) : Tables :=
  ofLists (atoms.flatMap Atom.path) (atoms.flatMap Atom.operands)

end Tables

namespace Writer

variable {α β : Type} {schema : Schema} {names : List String} {values : List Wire.Value}

theorem bind_apply {action : Writer α} {tables after : Tables} {result : α}
    (h : action tables = some (result, after)) (next : α → Writer β) :
    (action >>= next) tables = next result after := by
  change (action tables).bind _ = _
  rw [h]
  rfl

theorem pure_apply (result : α) (tables : Tables) :
    (pure result : Writer α) tables = some (result, tables) := rfl

/-- Parts that are entered one after another get consecutive placeholders. -/
theorem mapM_apply {enter : α → Writer String} {entry : α → β} {placeholder : Nat → String}
    {tables : List β → Tables} (h : ∀ before part,
      enter part (tables before) =
        some (placeholder before.length, tables (before ++ [entry part])))
    (before : List β) (parts : List α) :
    parts.mapM enter (tables before) =
      some ((List.range' before.length parts.length).map placeholder,
        tables (before ++ parts.map entry)) := by
  induction parts generalizing before with
  | nil => simp [pure_apply]
  | cons part rest ih =>
    rw [List.mapM_cons, bind_apply (h before part), bind_apply (ih (before ++ [entry part]))]
    simp [List.range'_succ, pure_apply]

theorem name_apply (entry : String) :
    name entry (.ofLists names values) =
      some (namePlaceholder names.length, .ofLists (names ++ [entry]) values) := by
  have hlength : (Plan.placeholderTable namePlaceholder names).length = names.length :=
    Plan.length_placeholderTable Expression.namePlaceholder_injective names
  simp only [Tables.ofLists, Plan.placeholderTable_append, ← hlength]
  rfl

theorem value_apply (operand : Json) :
    value operand (.ofLists names values) =
      some (valuePlaceholder values.length, .ofLists names (values ++ [.ofDocument operand])) := by
  have hlength : (Plan.placeholderTable valuePlaceholder values).length = values.length :=
    Plan.length_placeholderTable Expression.valuePlaceholder_injective values
  simp only [Tables.ofLists, Plan.placeholderTable_append, ← hlength]
  rfl

theorem operand_apply {operands : List Json} {i : Nat} {document : Json}
    (h : operands[i]? = some document) :
    operand operands i (.ofLists names values) =
      some (valuePlaceholder values.length, .ofLists names (values ++ [.ofDocument document])) := by
  rw [← value_apply, operand, h]
  rfl

theorem path_apply (path : Filter.Path) :
    Writer.path schema path (.ofLists names values) =
      some (Expression.pathText
          (List.range' names.length (Expression.physicalPath schema path).length),
        .ofLists (names ++ Expression.physicalPath schema path) values) := by
  have hname (before : List String) (entry : String) :
      name entry (.ofLists before values) =
        some (namePlaceholder before.length, .ofLists (before ++ [id entry]) values) :=
    name_apply entry
  have hnames := mapM_apply hname names (Expression.physicalPath schema path)
  rw [List.map_id] at hnames
  rw [Writer.path, bind_apply hnames]
  rfl

theorem values_apply (operands : List Json) :
    operands.mapM value (.ofLists names values) =
      some ((List.range' values.length operands.length).map valuePlaceholder,
        .ofLists names (values ++ operands.map .ofDocument)) := by
  have hvalue (before : List Wire.Value) (operand : Json) :
      value operand (.ofLists names before) =
        some (valuePlaceholder before.length, .ofLists names (before ++ [.ofDocument operand])) :=
    value_apply operand
  exact mapM_apply hvalue values operands

/-- With as many operands as it takes, an operator asks for each of them once and in order. -/
theorem operation_apply {operator : Operator} {operands : List Json}
    (h : operator.Takes operands.length) (path : List Nat) :
    operation (Expression.pathText path) operator operands (.ofLists names values) =
      some (Numbered.text ⟨path, operator, List.range' values.length operands.length⟩,
        .ofLists names (values ++ operands.map .ofDocument)) := by
  cases operator with
  | eq | ne | lt | le | gt | ge =>
    obtain ⟨document, rfl⟩ := List.length_eq_one_iff.1 h
    rw [operation, bind_apply (operand_apply rfl)]
    simp [pure_apply, Numbered.text]
  | between =>
    obtain ⟨low, high, rfl⟩ := List.length_eq_two.1 h
    rw [operation, bind_apply (operand_apply rfl), bind_apply (operand_apply rfl)]
    simp [pure_apply, Numbered.text, List.range'_succ, String.append_assoc]
  | isIn =>
    rw [operation, bind_apply (values_apply operands)]
    rfl
  | beginsWith | contains =>
    obtain ⟨document, rfl⟩ := List.length_eq_one_iff.1 h
    rw [operation, bind_apply (operand_apply rfl)]
    simp [pure_apply, Numbered.text, String.append_assoc]
  | «exists» | notExists =>
    obtain rfl := List.eq_nil_of_length_eq_zero h
    simp [operation, pure_apply, Numbered.text]

/-- A range is not written without its upper bound. -/
example : operation "#n0" .between [.null] ⟨[], []⟩ = none := rfl

/-- Of two operands, equality asks for the first one only. -/
example : (operation "#n0" .eq [.bool true, .null] ⟨[], []⟩).map (fun written ↦ written.2.values) =
    some [(":v0", .bool true)] := rfl

/-- A condition with as many operands as its operator takes is written as a numbered atom, and
enters its path and its operands. -/
theorem condition_apply {clause : Clause} (h : clause.condition.HasOperands) :
    condition schema clause (.ofLists names values) =
      some (((Resolved.ofClause schema clause).number ⟨names.length, values.length⟩).text,
        .ofLists (names ++ Expression.physicalPath schema clause.path)
          (values ++ clause.condition.operands.map .ofDocument)) := by
  rw [condition, bind_apply (path_apply clause.path),
    operation_apply (Filter.Condition.hasOperands_iff.1 h), Resolved.ofClause, Atom.number,
    List.length_map]

/-! ## Atoms -/

variable (schema) {clause : Clause} {clauses : List Clause}

theorem condition_ofAtoms (h : clause.condition.HasOperands) (atoms : List Resolved) :
    condition schema clause (.ofAtoms atoms) =
      some (((Resolved.ofClause schema clause).number (Counter.start.after atoms)).text,
        .ofAtoms (atoms ++ [Resolved.ofClause schema clause])) := by
  rw [Tables.ofAtoms, condition_apply h]
  simp [Tables.ofAtoms, Counter.after, Counter.start, Resolved.ofClause]

/-- Conditions are written one after another as atoms are numbered. -/
theorem mapM_condition_ofAtoms (h : ∀ clause ∈ clauses, clause.condition.HasOperands)
    (atoms : List Resolved) :
    clauses.mapM (condition schema) (.ofAtoms atoms) =
      some ((Expression.numberAtoms (Counter.start.after atoms)
          (clauses.map (Resolved.ofClause schema))).map Numbered.text,
        .ofAtoms (atoms ++ clauses.map (Resolved.ofClause schema))) := by
  induction clauses generalizing atoms with
  | nil => simp [pure_apply, Expression.numberAtoms]
  | cons clause rest ih =>
    obtain ⟨hclause, hrest⟩ := List.forall_mem_cons.1 h
    rw [List.mapM_cons, bind_apply (condition_ofAtoms schema hclause atoms),
      bind_apply (ih hrest _), pure_apply, Expression.after_append, List.append_assoc]
    rfl

end Writer

end IndexedSearch
