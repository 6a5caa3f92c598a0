import IndexedSearch.Filter.Tree

/-!
# Numbers of operands

A range takes two operands, membership at least one, a check for existence none, and every other
operator takes one; a bare value is the one operand of equality. Of a filter, the first condition
with another number of operands is the mistake, at whatever depth it stands.
-/

namespace IndexedSearch.Filter

/-- The operator takes that many operands. -/
def Operator.Takes (operator : Operator) (count : Nat) : Prop :=
  match operator with
  | .between => count = 2
  | .isIn => 1 ≤ count
  | .exists | .notExists => count = 0
  | _ => count = 1

theorem Operator.admits_arity_iff {operator : Operator} {count : Nat} :
    operator.arity.admits count = true ↔ operator.Takes count := by
  cases operator <;> simp [arity, Arity.admits, Takes]

namespace Condition

/-- A bare value, or an operator with as many operands as it takes. -/
inductive HasOperands : Condition → Prop
  | equality (value : Json) : HasOperands (.equality value)
  | operation {operator : Operator} {operands : List Json}
    (h : operator.Takes operands.length) : HasOperands (.operation operator operands)

variable {condition : Condition}

theorem hasOperands_iff :
    condition.HasOperands ↔ condition.operator.Takes condition.operands.length := by
  cases condition with
  | equality value => exact iff_of_true (.equality value) rfl
  | operation operator operands =>
    constructor
    · intro h
      cases h with
      | operation h => exact h
    · exact .operation

theorem operandError?_eq_none_iff : condition.operandError? = none ↔ condition.HasOperands := by
  rw [operandError?, hasOperands_iff, ← Operator.admits_arity_iff]
  split
  · rename_i hadmits
    exact iff_of_true rfl hadmits
  · rename_i hadmits
    exact iff_of_false nofun hadmits

/-- The mistake is reported with the operator and the number of operands that it got. -/
theorem operandError?_eq_some_iff {error : UsageError} :
    condition.operandError? = some error ↔
      ¬ condition.HasOperands ∧
        UsageError.operandCount condition.operator condition.operands.length = error := by
  rw [operandError?, hasOperands_iff, ← Operator.admits_arity_iff]
  split
  · rename_i hadmits
    exact iff_of_false nofun fun h ↦ h.1 hadmits
  · rename_i hadmits
    simp [hadmits]

end Condition

namespace Tree

variable {tree : Tree Clause}

/-- Every condition of the filter, at any depth, has as many operands as its operator takes. -/
def HasOperands (tree : Tree Clause) : Prop :=
  ∀ clause ∈ tree.leaves, clause.condition.HasOperands

theorem operandError?_eq_none_iff : tree.operandError? = none ↔ tree.HasOperands := by
  rw [operandError?, List.findSome?_eq_none_iff, HasOperands]
  simp only [Condition.operandError?_eq_none_iff]

/-- The first condition with another number of operands is reported. -/
theorem operandError?_eq_some_iff {error : UsageError} :
    tree.operandError? = some error ↔
      ∃ before clause after, tree.leaves = before ++ clause :: after ∧
        (∀ earlier ∈ before, earlier.condition.HasOperands) ∧
        ¬ clause.condition.HasOperands ∧
        UsageError.operandCount clause.condition.operator clause.condition.operands.length =
          error := by
  rw [operandError?, List.findSome?_eq_some_iff]
  simp only [Condition.operandError?_eq_none_iff, Condition.operandError?_eq_some_iff]
  constructor
  · intro hexists
    obtain ⟨before, clause, after, hleaves, hclause, hbefore⟩ := hexists
    exact ⟨before, clause, after, hleaves, hbefore, hclause⟩
  · intro hexists
    obtain ⟨before, clause, after, hleaves, hbefore, hclause⟩ := hexists
    exact ⟨before, clause, after, hleaves, hclause, hbefore⟩

end Tree

end IndexedSearch.Filter
