import IndexedSearch.Proofs.Store.Course

/-!
# Stop rules compared

Of two traversals of the same answers, the one whose rule is met no later reads no further. As long
as the other one ends without an error, so does this one, and its pages and calls are the first ones
of the other. A failure that only the longer traversal meets makes no difference to the shorter one.
-/

namespace IndexedSearch

/-- Whenever the other rule is met, this one is. -/
def StopRule.IsMetBy (rule other : StopRule) : Prop :=
  ∀ counted, other.isMet counted = true → rule.isMet counted = true

namespace StopRule

theorem isMetBy_minimum {count other : Nat} (h : count ≤ other) :
    IsMetBy (.minimum count) (.minimum other) := by
  intro counted hmet
  have hother : other ≤ counted := of_decide_eq_true hmet
  exact decide_eq_true (Nat.le_trans h hother)

/-- A rule that is never met is met after every other one. -/
theorem isMetBy_exhaustive (rule : StopRule) : rule.IsMetBy .exhaustive := by
  intro counted hmet
  cases hmet

/-- No items at all are counted with any page. -/
theorem isMet_single_eq (counted : Nat) : single.isMet counted = (minimum 0).isMet counted :=
  (decide_eq_true (Nat.zero_le counted)).symm

end StopRule

namespace Traversal

variable {rule other : StopRule} {counted : Nat} {request : Request} {answers unused : List Answer}
  {page : Page} {call : Call} {traversal first second : Traversal} {all : List Page}

/-- If the second traversal ends without an error, the first one is the beginning of it. -/
def Begins (first second : Traversal) : Prop :=
  ∀ all, second.result = .ok all → ∃ pages, first.result = .ok pages ∧ pages <+: all ∧
    first.calls <+: second.calls

/-- A single page and call are the beginning of every traversal that has them in front. -/
theorem begins_precededBy_of_single :
    Begins ⟨.ok [page], [call], unused⟩ (traversal.precededBy page call) := by
  intro all hall
  obtain ⟨others, _, rfl⟩ := map_eq_ok_iff.1 hall
  exact ⟨[page], rfl, ⟨others, rfl⟩, ⟨traversal.calls, rfl⟩⟩

/-- With one more page and call in front of both, the first one still is the beginning. -/
theorem Begins.precededBy (h : first.Begins second) :
    (first.precededBy page call).Begins (second.precededBy page call) := by
  intro all hall
  obtain ⟨others, hothers, rfl⟩ := map_eq_ok_iff.1 hall
  obtain ⟨pages, hpages, hbefore, hcalls⟩ := h others hothers
  refine ⟨page :: pages, map_eq_ok_iff.2 ⟨pages, hpages, rfl⟩, ?_, ?_⟩
  · exact List.cons_prefix_cons.2 ⟨rfl, hbefore⟩
  · exact List.cons_prefix_cons.2 ⟨rfl, hcalls⟩

/-- Both traversals go on together until the rule that is met first stops one of them. -/
theorem Course.begins (hrule : rule.IsMetBy other)
    (h : Course other counted request answers traversal) :
    (resume rule counted request answers).Begins traversal := by
  induction h with
  | failed =>
    intro all hall
    cases hall
  | ended h =>
    rw [resume_page_of_stop (h.imp_right (hrule _))]
    intro all hall
    exact ⟨_, hall, List.prefix_rfl, List.prefix_rfl⟩
  | @continued counted request page _ _ _ hkey _ _ ih =>
    by_cases hmet : rule.isMet (counted + page.count.toNat) = true
    · rw [resume_page_of_stop (.inr hmet)]
      exact begins_precededBy_of_single
    · rw [resume_page_of_key hkey (by simpa using hmet)]
      exact ih.precededBy

/-- Rules that are met at the same time make no difference. -/
theorem resume_congr (h : ∀ counted, rule.isMet counted = other.isMet counted) :
    resume rule counted request answers = resume other counted request answers := by
  rw [resume_eq_iff]
  have hother := course_resume other counted request answers
  generalize resume other counted request answers = traversal at hother
  induction hother with
  | failed hfailure => exact .failed hfailure
  | ended hstop =>
    rw [← h] at hstop
    exact .ended hstop
  | continued hkey hmet _ ih =>
    rw [← h] at hmet
    exact .continued hkey hmet ih

/--
Asking for fewer items gives a beginning of what asking for more items gives, and of all pages;
asking for a single page is asking for no items.
-/
theorem begins_run_and_run_single (request : Request) (answers : List Answer) :
    (∀ count other, count ≤ other →
      (run (.minimum count) request answers).Begins (run (.minimum other) request answers)) ∧
    (∀ count, (run (.minimum count) request answers).Begins (run .exhaustive request answers)) ∧
    run .single request answers = run (.minimum 0) request answers := by
  refine ⟨?_, ?_, ?_⟩
  · intro count other h
    exact (course_resume _ 0 request answers).begins (StopRule.isMetBy_minimum h)
  · intro count
    exact (course_resume _ 0 request answers).begins (StopRule.isMetBy_exhaustive _)
  · exact resume_congr StopRule.isMet_single_eq

/-! ## An example -/

/-- A page that counts items, without the items. -/
def countingPage (count : UInt64) (key : Option Wire.Key) : Page := ⟨[], count, count, key⟩

def scanRequest : Request :=
  ⟨"orders", none, none, none, none, [], [], none, none, none, none, none⟩

/-- Pages of two and three items, an empty one that is the last, and a failure behind them. -/
def threePages : List Answer :=
  [.page (countingPage 2 (some [])), .page (countingPage 3 (some [])), .page (countingPage 0 none),
    .failure "refused"]

theorem result_minimum_four :
    (run (.minimum 4) scanRequest threePages).result =
      .ok [countingPage 2 (some []), countingPage 3 (some [])] := rfl

theorem result_exhaustive :
    (run .exhaustive scanRequest threePages).result =
      .ok [countingPage 2 (some []), countingPage 3 (some []), countingPage 0 none] := rfl

theorem begins_run_example :
    2 ≤ 4 ∧
      (run (.minimum 4) scanRequest threePages).result =
        .ok [countingPage 2 (some []), countingPage 3 (some [])] ∧
      (∃ pages, (run (.minimum 2) scanRequest threePages).result = .ok pages ∧
        pages <+: [countingPage 2 (some []), countingPage 3 (some [])] ∧
        (run (.minimum 2) scanRequest threePages).calls <+:
          (run (.minimum 4) scanRequest threePages).calls) ∧
      ∃ pages, (run (.minimum 4) scanRequest threePages).result = .ok pages ∧
        pages <+: [countingPage 2 (some []), countingPage 3 (some []), countingPage 0 none] ∧
        (run (.minimum 4) scanRequest threePages).calls <+:
          (run .exhaustive scanRequest threePages).calls :=
  ⟨by decide, result_minimum_four,
    (begins_run_and_run_single scanRequest threePages).1 2 4 (by decide) _ result_minimum_four,
    (begins_run_and_run_single scanRequest threePages).2.1 4 _ result_exhaustive⟩

end Traversal

end IndexedSearch
