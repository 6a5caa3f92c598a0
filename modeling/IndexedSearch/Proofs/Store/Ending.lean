import IndexedSearch.Proofs.Store.Course
import Mathlib.Order.Bounds.Basic

/-!
# Where a traversal ends

A traversal ends with the first answer that is no page, or is a page behind which there is nothing
more, or a page with which the stop rule is met. Every answer up to there is used for one call, and
none behind it. The outcome is all pages, or the failure alone.
-/

namespace IndexedSearch

/-- The number of items that an answer counts. -/
def Answer.count : Answer → Nat
  | page answered => answered.count.toNat
  | failure _ => 0

namespace Traversal

variable {rule : StopRule} {counted : Nat} {request : Request} {answers unused : List Answer}
  {page : Page} {traversal : Traversal} {k : Nat}

/-- The number of items that are counted up to a position. -/
def countedThrough (answers : List Answer) (k : Nat) : Nat :=
  (answers.take (k + 1)).foldr (fun answer sum ↦ answer.count + sum) 0

/-- Why nothing is read behind a position, with so many items counted before all answers. -/
inductive EndsAt (rule : StopRule) (counted : Nat) (answers : List Answer) (k : Nat) : Prop
  | failed {cause : String} (h : failureAt? answers k = some cause)
  | exhausted {page : Page} (h : answers[k]? = some (.page page)) (hkey : page.nextKey = none)
  | single {page : Page} (h : answers[k]? = some (.page page)) (hrule : rule = .single)
  | minimum {page : Page} {count : Nat} (h : answers[k]? = some (.page page))
    (hrule : rule = .minimum count) (hcount : count ≤ counted + countedThrough answers k)

/-- The outcome of a traversal that ends with the answer at a position. -/
structure IsEndedAt (answers : List Answer) (k : Nat) (traversal : Traversal) : Prop where
  calls : traversal.calls.length = k + 1
  unused : traversal.unused = answers.drop (k + 1)
  pages : ∀ page, answers[k]? = some (.page page) → ∃ pages,
    traversal.result = .ok pages ∧ pages.map Answer.page = answers.take (k + 1)
  failure : ∀ cause, failureAt? answers k = some cause → ∃ request,
    traversal.result = .error ⟨request, cause⟩ ∧ traversal.calls[k]? = some request.call

/-! ## The position -/

theorem isMet_iff :
    rule.isMet counted = true ↔
      rule = .single ∨ ∃ count, rule = .minimum count ∧ count ≤ counted := by
  cases rule <;> simp [StopRule.isMet]

theorem endsAt_zero_iff :
    EndsAt rule counted (.page page :: unused) 0 ↔
      page.nextKey = none ∨ rule.isMet (counted + page.count.toNat) = true := by
  rw [isMet_iff]
  have hcounted : countedThrough (.page page :: unused) 0 = page.count.toNat := by
    simp [countedThrough, Answer.count]
  constructor
  · intro h
    cases h with
    | failed h => cases h
    | exhausted h hkey =>
      cases h
      exact .inl hkey
    | single h hrule => exact .inr (.inl hrule)
    | minimum h hrule hcount =>
      rw [hcounted] at hcount
      exact .inr (.inr ⟨_, hrule, hcount⟩)
  · intro h
    rcases h with hkey | hrule | ⟨count, hrule, hcount⟩
    · exact .exhausted rfl hkey
    · exact .single rfl hrule
    · rw [← hcounted] at hcount
      exact .minimum rfl hrule hcount

/-- A position behind the first page is the one before it among the other answers. -/
theorem endsAt_succ_iff :
    EndsAt rule counted (.page page :: unused) (k + 1) ↔
      EndsAt rule (counted + page.count.toNat) unused k := by
  have hcounted : counted + countedThrough (.page page :: unused) (k + 1) =
      counted + page.count.toNat + countedThrough unused k := by
    simp [countedThrough, Answer.count, Nat.add_assoc]
  constructor
  · intro h
    cases h with
    | failed h => exact .failed h
    | exhausted h hkey => exact .exhausted h hkey
    | single h hrule => exact .single h hrule
    | minimum h hrule hcount =>
      rw [hcounted] at hcount
      exact .minimum h hrule hcount
  · intro h
    cases h with
    | failed h => exact .failed h
    | exhausted h hkey => exact .exhausted h hkey
    | single h hrule => exact .single h hrule
    | minimum h hrule hcount =>
      rw [← hcounted] at hcount
      exact .minimum h hrule hcount

theorem isLeast_zero (h : EndsAt rule counted answers 0) :
    IsLeast {k | EndsAt rule counted answers k} 0 :=
  ⟨h, fun _ _ ↦ Nat.zero_le _⟩

theorem isLeast_succ (hzero : ¬ EndsAt rule counted (.page page :: unused) 0)
    (h : IsLeast {k | EndsAt rule (counted + page.count.toNat) unused k} k) :
    IsLeast {k | EndsAt rule counted (.page page :: unused) k} (k + 1) := by
  constructor
  · exact endsAt_succ_iff.2 h.1
  · intro j hj
    -- No position before the rest ends the reading, so the least one of the rest is the least.
    cases j with
    | zero => exact absurd hj hzero
    | succ j => exact Nat.succ_le_succ (h.2 (endsAt_succ_iff.1 hj))

/-! ## The outcome -/

theorem IsEndedAt.failed {cause : String} (h : failureAt? answers 0 = some cause) :
    IsEndedAt answers 0 ⟨.error ⟨request, cause⟩, [request.call], answers.drop 1⟩ := by
  constructor
  · rfl
  · rfl
  · intro page hpage
    simp [failureAt?, hpage] at h
  · intro other hother
    cases h.symm.trans hother
    exact ⟨request, rfl, rfl⟩

theorem IsEndedAt.ended :
    IsEndedAt (.page page :: unused) 0 ⟨.ok [page], [request.call], unused⟩ := by
  constructor
  · rfl
  · rfl
  · intro _ _
    exact ⟨[page], rfl, rfl⟩
  · intro cause hcause
    cases hcause

/-- One more page in front moves the end on by one answer. -/
theorem IsEndedAt.precededBy (h : IsEndedAt unused k traversal) (call : Call) :
    IsEndedAt (.page page :: unused) (k + 1) (traversal.precededBy page call) := by
  constructor
  · exact congrArg (· + 1) h.calls
  · exact h.unused
  · intro last hlast
    obtain ⟨pages, hresult, hpages⟩ := h.pages last hlast
    refine ⟨page :: pages, ?_, ?_⟩
    · rw [Traversal.precededBy, hresult]
      rfl
    · rw [List.map_cons, hpages, List.take_succ_cons]
  · intro cause hcause
    obtain ⟨request, hresult, hcall⟩ := h.failure cause hcause
    refine ⟨request, ?_, hcall⟩
    rw [Traversal.precededBy, hresult]
    rfl

theorem Course.exists_isLeast (h : Course rule counted request answers traversal) :
    ∃ k, IsLeast {k | EndsAt rule counted answers k} k ∧ IsEndedAt answers k traversal := by
  induction h with
  | failed h => exact ⟨0, isLeast_zero (.failed h), .failed h⟩
  | ended h => exact ⟨0, isLeast_zero (endsAt_zero_iff.2 h), .ended⟩
  | @continued counted request page unused _ _ hkey hmet _ ih =>
    obtain ⟨k, hleast, hended⟩ := ih
    have hzero : ¬ EndsAt rule counted (.page page :: unused) 0 := by
      rw [endsAt_zero_iff]
      simp [hkey, hmet]
    exact ⟨k + 1, isLeast_succ hzero hleast, hended.precededBy request.call⟩

/-- Reading ends just at the first answer that gives a reason for it. -/
theorem exists_isLeast_run (rule : StopRule) (request : Request) (answers : List Answer) :
    ∃ k, IsLeast {k | EndsAt rule 0 answers k} k ∧
      IsEndedAt answers k (run rule request answers) :=
  (course_resume rule 0 request answers).exists_isLeast

end Traversal

end IndexedSearch
