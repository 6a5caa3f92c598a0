import IndexedSearch.Proofs.Output.Merging
import IndexedSearch.Proofs.Store.Continuing

/-!
# How far a traversal reads

A traversal without an error has one page for each of its calls, and no answer is passed over. It
stops with a page behind which there is nothing more, or with the first one that meets its rule.
-/

namespace IndexedSearch.Traversal

variable {rule : StopRule} {counted : Nat} {request : Request} {answers : List Answer}
  {page : Page} {pages : List Page} {traversal : Traversal}

/-- The pages answer the calls, one page for each call, and come before all unused answers. -/
structure AnsweredBy (pages : List Page) (calls : List Call) (unused answers : List Answer) :
    Prop where
  length : pages.length = calls.length
  answers : pages.map Answer.page ++ unused = answers

/-- A page and a call more in front are an answer and a call more. -/
theorem answeredBy_cons_iff {call : Call} {calls : List Call} {unused : List Answer} :
    AnsweredBy pages (call :: calls) unused (.page page :: answers) ↔
      ∃ others, page :: others = pages ∧ AnsweredBy others calls unused answers := by
  constructor
  · intro h
    obtain ⟨hlength, hanswers⟩ := h
    cases pages with
    | nil => simp at hlength
    | cons first others =>
      rw [List.map_cons, List.cons_append, List.cons.injEq, Answer.page.injEq] at hanswers
      obtain ⟨rfl, hanswers⟩ := hanswers
      exact ⟨others, rfl, Nat.succ.inj hlength, hanswers⟩
  · intro hexists
    obtain ⟨others, rfl, hlength, rfl⟩ := hexists
    exact ⟨congrArg (· + 1) hlength, rfl⟩

theorem answeredBy_nil_iff {unused : List Answer} :
    AnsweredBy pages [] unused unused ↔ pages = [] := by
  constructor
  · intro h
    exact List.eq_nil_of_length_eq_zero h.length
  · rintro rfl
    exact ⟨rfl, rfl⟩

/-- A traversal ends without an error just if all its calls are answered by pages. -/
theorem Course.result_eq_ok_iff (h : Course rule counted request answers traversal) :
    traversal.result = .ok pages ↔
      AnsweredBy pages traversal.calls traversal.unused answers := by
  induction h generalizing pages with
  | @failed _ _ answers cause h =>
    apply iff_of_false nofun
    intro hpages
    -- The page for the only call would stand where the store has failed.
    obtain ⟨hlength, hanswers⟩ := hpages
    obtain ⟨page, rfl⟩ := List.length_eq_one_iff.1 hlength
    rw [← hanswers] at h
    cases h
  | ended =>
    rw [answeredBy_cons_iff]
    simp only [answeredBy_nil_iff, exists_eq_right, Except.ok.injEq]
  | continued _ _ _ ih =>
    rw [precededBy, map_eq_ok_iff, answeredBy_cons_iff]
    simp only [ih, and_comm]

/-- Behind the last page there is nothing more, or with it the rule is met. -/
theorem Course.stops (h : Course rule counted request answers traversal)
    (hpages : traversal.result = .ok pages) :
    nextKey pages = none ∨ rule.isMet (counted + Merged.total Page.count pages) = true := by
  induction h generalizing pages with
  | failed => cases hpages
  | ended h =>
    cases hpages
    exact h
  | @continued counted _ page _ _ _ _ _ hrest ih =>
    obtain ⟨others, hothers, rfl⟩ := map_eq_ok_iff.1 hpages
    obtain ⟨next, others, rfl⟩ := List.exists_cons_of_ne_nil (hrest.ne_nil hothers)
    have htotal : counted + Merged.total Page.count (page :: next :: others) =
        counted + page.count.toNat + Merged.total Page.count (next :: others) :=
      (Nat.add_assoc _ _ _).symm
    rw [htotal]
    exact ih hothers

/-- With the pages before the last one, if there are any, the rule is not met. -/
theorem Course.goesOn (h : Course rule counted request answers traversal)
    (hpages : traversal.result = .ok pages) :
    pages.length = 1 ∨
      rule.isMet (counted + Merged.total Page.count pages.dropLast) = false := by
  induction h generalizing pages with
  | failed => cases hpages
  | ended =>
    cases hpages
    exact .inl rfl
  | @continued counted _ page _ _ _ _ hmet hrest ih =>
    obtain ⟨others, hothers, rfl⟩ := map_eq_ok_iff.1 hpages
    obtain ⟨next, others, rfl⟩ := List.exists_cons_of_ne_nil (hrest.ne_nil hothers)
    have htotal : counted + Merged.total Page.count (page :: next :: others).dropLast =
        counted + page.count.toNat + Merged.total Page.count (next :: others).dropLast :=
      (Nat.add_assoc _ _ _).symm
    rw [htotal]
    rcases ih hothers with hlength | hrest
    · -- The page is followed by one more, so it is all that was read before the last one.
      have hnil : others = [] := List.eq_nil_of_length_eq_zero (Nat.succ.inj hlength)
      rw [hnil]
      exact .inr hmet
    · exact .inr hrest

end IndexedSearch.Traversal
