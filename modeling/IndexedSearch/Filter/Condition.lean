import IndexedSearch.UsageError

/-!
# Conditions on one attribute

A condition is a bare value, which asks for equality, or an operator with operands. The number of
operands is not fixed by the type: a condition may come from a serialized form, and is checked
before it is used.
-/

namespace IndexedSearch.Filter

/-- A condition: a bare value asks for equality, an operator stands with its operands. -/
inductive Condition where
  | equality (value : Json)
  | operation (operator : Operator) (operands : List Json)

namespace Condition

/-- The operator that is asked for. -/
def operator : Condition → Operator
  | equality _ => .eq
  | operation operator _ => operator

/-- The operands of the operator. -/
def operands : Condition → List Json
  | equality value => [value]
  | operation _ operands => operands

/-- The condition may be used on a key attribute of an index. -/
def isKeyEligible (condition : Condition) : Bool := condition.operator.isKeyEligible

/-- The mistake in the number of operands, if there is one. -/
def operandError? (condition : Condition) : Option UsageError :=
  if condition.operator.arity.admits condition.operands.length then none
  else some (.operandCount condition.operator condition.operands.length)

/-! ## The conditions by name -/

def ne (value : Json) : Condition := operation .ne [value]
def lt (value : Json) : Condition := operation .lt [value]
def le (value : Json) : Condition := operation .le [value]
def gt (value : Json) : Condition := operation .gt [value]
def ge (value : Json) : Condition := operation .ge [value]
def between (low high : Json) : Condition := operation .between [low, high]
def beginsWith (start : String) : Condition := operation .beginsWith [.string start]
def isIn (values : List Json) : Condition := operation .isIn values
def contains (value : Json) : Condition := operation .contains [value]
def present : Condition := operation .exists []
def absent : Condition := operation .notExists []

/-! ## The serialized form -/

def toJson : Condition → Json
  | equality value => .object [("Equality", value)]
  | operation operator operands =>
    .object [("Operator", .array [operator.toJson, .array operands])]

def ofJson? : Json → Option Condition
  | .object [("Equality", value)] => some (equality value)
  | .object [("Operator", .array [operator, .array operands])] =>
    (Operator.ofJson? operator).map fun operator ↦ operation operator operands
  | _ => none

end Condition

end IndexedSearch.Filter
