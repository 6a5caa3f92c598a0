import IndexedSearch.Filter.Operator

/-!
# Requests that are not allowed

The mistakes a caller can make in a search, before anything is sent to the store.
-/

namespace IndexedSearch

open IndexedSearch.Filter (Operator)

/-- What a caller did that is not allowed. -/
inductive UsageError where
  | scanOrdering
  | invalidPath (path : String)
  | operandCount (operator : Operator) (actual : Nat)
deriving DecidableEq

/-- The wording of an error. -/
def UsageError.message : UsageError → String
  | scanOrdering =>
    "sort direction cannot be applied to a scan; add a key condition or drop the ordering"
  | invalidPath path =>
    "invalid attribute path '" ++ path ++ "': expected 1 to 4 non-empty segments"
  | operandCount operator actual =>
    "operator " ++ operator.symbol ++ " expects " ++ operator.arity.text ++
      " operand(s), got " ++ actual.repr

end IndexedSearch
