import IndexedSearch.Proofs.Outcome
import IndexedSearch.Store.Traversal

/-!
# The course of a traversal

A traversal ends with its first call, or reads a page and goes on from the key of that page. The
rules below say this call by call, and describe the outcome of reading exactly.
-/

namespace IndexedSearch.Traversal

variable {rule : StopRule} {counted : Nat} {request : Request} {answers unused : List Answer}
  {page : Page} {traversal : Traversal}

/-- What the store says at a position where it has no page to give. -/
def failureAt? (answers : List Answer) (k : Nat) : Option String :=
  match answers[k]? with
  | none => some noAnswerLeft
  | some (.failure cause) => some cause
  | some (.page _) => none

/-! ## The first call -/

theorem resume_of_failureAt? {cause : String} (h : failureAt? answers 0 = some cause) :
    resume rule counted request answers =
      ⟨.error ⟨request, cause⟩, [request.call], answers.drop 1⟩ := by
  cases answers with
  | nil =>
    cases h
    rfl
  | cons answer unused =>
    cases answer with
    | failure cause =>
      cases h
      rfl
    | page page => cases h

theorem resume_page_of_stop
    (h : page.nextKey = none ∨ rule.isMet (counted + page.count.toNat) = true) :
    resume rule counted request (.page page :: unused) = ⟨.ok [page], [request.call], unused⟩ := by
  rw [resume]
  split
  · rfl
  · rename_i key hkey
    rw [hkey] at h
    rw [if_pos (h.resolve_left (by simp))]
    rfl

theorem resume_page_of_key {key : Wire.Key} (hkey : page.nextKey = some key)
    (hmet : rule.isMet (counted + page.count.toNat) = false) :
    resume rule counted request (.page page :: unused) =
      (resume rule (counted + page.count.toNat) { request with startKey := some key }
        unused).precededBy page request.call := by
  rw [resume, hkey]
  simp only [hmet, Bool.false_eq_true, if_false]

/-! ## The rules -/

/-- How a traversal comes about, with so many items counted before. -/
inductive Course (rule : StopRule) : Nat → Request → List Answer → Traversal → Prop
  | failed {counted : Nat} {request : Request} {answers : List Answer} {cause : String}
    (h : failureAt? answers 0 = some cause) :
    Course rule counted request answers
      ⟨.error ⟨request, cause⟩, [request.call], answers.drop 1⟩
  | ended {counted : Nat} {request : Request} {page : Page} {unused : List Answer}
    (h : page.nextKey = none ∨ rule.isMet (counted + page.count.toNat) = true) :
    Course rule counted request (.page page :: unused) ⟨.ok [page], [request.call], unused⟩
  | continued {counted : Nat} {request : Request} {page : Page} {unused : List Answer}
    {key : Wire.Key} {rest : Traversal} (hkey : page.nextKey = some key)
    (hmet : rule.isMet (counted + page.count.toNat) = false)
    (hrest : Course rule (counted + page.count.toNat) { request with startKey := some key }
      unused rest) :
    Course rule counted request (.page page :: unused) (rest.precededBy page request.call)

theorem course_resume (rule : StopRule) (counted : Nat) (request : Request)
    (answers : List Answer) :
    Course rule counted request answers (resume rule counted request answers) := by
  induction answers generalizing counted request with
  | nil => exact .failed rfl
  | cons answer unused ih =>
    cases answer with
    | failure cause => exact .failed rfl
    | page page =>
      by_cases hstop : page.nextKey = none ∨ rule.isMet (counted + page.count.toNat) = true
      · rw [resume_page_of_stop hstop]
        exact .ended hstop
      · obtain ⟨hkey, hmet⟩ := not_or.1 hstop
        obtain ⟨key, hkey⟩ := Option.ne_none_iff_exists'.1 hkey
        have hmet : rule.isMet (counted + page.count.toNat) = false := by simpa using hmet
        rw [resume_page_of_key hkey hmet]
        exact .continued hkey hmet (ih _ _)

/-- Reading takes its course, and there is no other. -/
theorem resume_eq_iff :
    resume rule counted request answers = traversal ↔
      Course rule counted request answers traversal := by
  constructor
  · rintro rfl
    exact course_resume rule counted request answers
  · intro h
    induction h with
    | failed h => exact resume_of_failureAt? h
    | ended h => exact resume_page_of_stop h
    | continued hkey hmet _ ih => rw [resume_page_of_key hkey hmet, ih]

/-- The first call is that of the request itself. -/
theorem Course.exists_calls_eq_cons (h : Course rule counted request answers traversal) :
    ∃ later, traversal.calls = request.call :: later := by
  cases h with
  | failed => exact ⟨[], rfl⟩
  | ended => exact ⟨[], rfl⟩
  | @continued _ _ _ _ _ rest => exact ⟨rest.calls, rfl⟩

/-- Pages come at least one at a time. -/
theorem Course.ne_nil {pages : List Page} (h : Course rule counted request answers traversal)
    (hpages : traversal.result = .ok pages) : pages ≠ [] := by
  cases h with
  | failed => cases hpages
  | ended =>
    cases hpages
    exact List.cons_ne_nil _ _
  | continued =>
    obtain ⟨others, _, rfl⟩ := map_eq_ok_iff.1 hpages
    exact List.cons_ne_nil _ _

end IndexedSearch.Traversal
