import IndexedSearch.Json.Record

/-!
# Operators

Each operator takes a number of operands, has a spelling in expressions, and may or may not be used
on the key attributes of an index.
-/

namespace IndexedSearch.Filter

/-- The operators that the store understands. -/
inductive Operator where
  | eq
  | ne
  | lt
  | le
  | gt
  | ge
  | between
  | beginsWith
  | isIn
  | contains
  | exists
  | notExists
deriving DecidableEq

/-- How many operands an operator takes. -/
inductive Arity where
  | exactly (count : Nat)
  | atLeastOne
deriving DecidableEq

namespace Arity

/-- The number of operands is as it has to be. -/
def admits : Arity → Nat → Bool
  | exactly count, actual => actual = count
  | atLeastOne, actual => 1 ≤ actual

/-- The wording of an arity. -/
def text : Arity → String
  | exactly count => count.repr
  | atLeastOne => "at least 1"

end Arity

namespace Operator

/-- All operators. -/
def all : List Operator :=
  [eq, ne, lt, le, gt, ge, between, beginsWith, isIn, contains, .exists, notExists]

/-- The name in serialized forms. -/
def name : Operator → String
  | eq => "Eq"
  | ne => "Ne"
  | lt => "Lt"
  | le => "Le"
  | gt => "Gt"
  | ge => "Ge"
  | between => "Between"
  | beginsWith => "BeginsWith"
  | isIn => "In"
  | contains => "Contains"
  | .exists => "Exists"
  | notExists => "NotExists"

/-- The spelling in expressions. -/
def symbol : Operator → String
  | eq => "="
  | ne => "<>"
  | lt => "<"
  | le => "<="
  | gt => ">"
  | ge => ">="
  | between => "BETWEEN"
  | beginsWith => "begins_with"
  | isIn => "IN"
  | contains => "contains"
  | .exists => "attribute_exists"
  | notExists => "attribute_not_exists"

/-- The operator may be used on a key attribute of an index. -/
def isKeyEligible : Operator → Bool
  | eq | lt | le | gt | ge | between | beginsWith => true
  | ne | isIn | contains | .exists | notExists => false

/-- The number of operands that the operator takes. -/
def arity : Operator → Arity
  | eq | ne | lt | le | gt | ge | beginsWith | contains => .exactly 1
  | between => .exactly 2
  | isIn => .atLeastOne
  | .exists | notExists => .exactly 0

/-- The operator of a name. -/
def ofName? (text : String) : Option Operator :=
  all.find? fun operator ↦ operator.name = text

theorem ofName?_name (operator : Operator) : ofName? operator.name = some operator := by
  cases operator <;> rfl

def toJson (operator : Operator) : Json := .string operator.name

def ofJson? (json : Json) : Option Operator := json.variant?.bind ofName?

@[simp] theorem ofJson?_toJson (operator : Operator) :
    ofJson? operator.toJson = some operator :=
  ofName?_name operator

end Operator

end IndexedSearch.Filter
