import IndexedSearch.Proofs.Store.Course

/-!
# Reading on after a stop

A traversal that stops early leaves answers behind. Reading them to the end from the key of the last
page gives the pages and calls that the early traversal lacks, and nothing else, compared with
reading to the end at once.
-/

namespace IndexedSearch.Traversal

variable {rule : StopRule} {counted : Nat} {request : Request} {page : Page} {unused : List Answer}

/-- The key from which the pages go on. -/
def nextKey (pages : List Page) : Option Wire.Key := pages.getLast?.bind Page.nextKey

/-- The outcome behind pages and calls from before. -/
def behind (pages : List Page) (calls : List Call) (traversal : Traversal) : Traversal :=
  { traversal with
    result := traversal.result.map (pages ++ ·)
    calls := calls ++ traversal.calls }

/-- The outcome of reading to the end, where a traversal has stopped before it. -/
def continued (request : Request) (first : Traversal) : Traversal :=
  match first.result with
  | .error _ => first
  | .ok pages =>
    match nextKey pages with
    | none => first
    | some key =>
      (run .exhaustive { request with startKey := some key } first.unused).behind pages first.calls

/-- A stop rule that is never met does not depend on what was counted. -/
theorem resume_exhaustive (counted other : Nat) (request : Request) (answers : List Answer) :
    resume .exhaustive counted request answers = resume .exhaustive other request answers := by
  rw [resume_eq_iff]
  have h := course_resume .exhaustive other request answers
  generalize resume .exhaustive other request answers = traversal at h
  induction h generalizing counted with
  | failed h => exact .failed h
  | ended h => exact .ended h
  | continued hkey hmet _ ih => exact .continued hkey hmet (ih _)

/-- A traversal that ends without an error has read a page. -/
theorem ne_nil_of_resume {answers : List Answer} {pages : List Page}
    (h : (resume rule counted request answers).result = .ok pages) : pages ≠ [] :=
  (course_resume rule counted request answers).ne_nil h

/-! ## All pages -/

/-- One more page in front does not change where to go on. -/
theorem continued_precededBy {key : Wire.Key} {first : Traversal}
    (h : ∀ pages, first.result = .ok pages → pages ≠ []) :
    continued request (first.precededBy page request.call) =
      (continued { request with startKey := some key } first).precededBy page request.call := by
  rcases first with ⟨result, calls, unused⟩
  cases result with
  | error error => rfl
  | ok pages =>
    obtain ⟨head, rest, rfl⟩ := List.exists_cons_of_ne_nil (h pages rfl)
    have hnext : nextKey (page :: head :: rest) = nextKey (head :: rest) := rfl
    simp only [continued, precededBy, Except.map, hnext]
    cases nextKey (head :: rest) with
    | none => rfl
    | some key =>
      simp only [behind, List.cons_append]
      cases (run .exhaustive { request with startKey := some key } unused).result <;> rfl

/-- Reading to the end is stopping somewhere and reading on. -/
theorem resume_exhaustive_eq_continued (rule : StopRule) (counted : Nat) (request : Request)
    (answers : List Answer) :
    resume .exhaustive counted request answers =
      continued request (resume rule counted request answers) := by
  induction answers generalizing counted request with
  | nil => rfl
  | cons answer unused ih =>
    cases answer with
    | failure cause => rfl
    | page page =>
      cases hkey : page.nextKey with
      | none =>
        have hnext : nextKey [page] = none := hkey
        rw [resume_page_of_stop (.inl hkey), resume_page_of_stop (.inl hkey), continued]
        simp only [hnext]
      | some key =>
        have hnext : nextKey [page] = some key := hkey
        rw [resume_page_of_key hkey rfl]
        by_cases hmet : rule.isMet (counted + page.count.toNat) = true
        · rw [resume_page_of_stop (.inr hmet), continued]
          simp only [hnext]
          rw [run, resume_exhaustive 0 (counted + page.count.toNat)]
          rfl
        · rw [resume_page_of_key hkey (by simpa using hmet),
            continued_precededBy fun pages ↦ ne_nil_of_resume, ih]

theorem behind_eq_ok_iff {traversal : Traversal} {pages all : List Page}
    {before calls : List Call} :
    traversal.behind pages before = ⟨.ok all, calls, unused⟩ ↔
      ∃ others after, traversal = ⟨.ok others, after, unused⟩ ∧ pages ++ others = all ∧
        before ++ after = calls := by
  rcases traversal with ⟨result, after, left⟩
  cases result with
  | error error => simp [behind, Except.map]
  | ok others => simp [behind, Except.map, and_assoc, and_comm]

/-- Everything can be read just if it can be read up to a stop and on from there. -/
theorem exhaustive_eq_ok_iff (rule : StopRule) {answers : List Answer} {all : List Page}
    {calls : List Call} :
    run .exhaustive request answers = ⟨.ok all, calls, unused⟩ ↔
      ∃ pages before between, run rule request answers = ⟨.ok pages, before, between⟩ ∧
        ((nextKey pages = none ∧ pages = all ∧ before = calls ∧ between = unused) ∨
          ∃ key others after, nextKey pages = some key ∧
            run .exhaustive { request with startKey := some key } between =
              ⟨.ok others, after, unused⟩ ∧
            pages ++ others = all ∧ before ++ after = calls) := by
  rw [run, resume_exhaustive_eq_continued rule, ← run]
  generalize run rule request answers = first
  rcases first with ⟨result, before, between⟩
  cases result with
  | error error => simp [continued]
  | ok pages =>
    rw [continued]
    dsimp only
    cases hnext : nextKey pages with
    | none =>
      constructor
      · intro h
        cases h
        exact ⟨_, _, _, rfl, .inl ⟨hnext, rfl, rfl, rfl⟩⟩
      · intro hexists
        rcases hexists with ⟨_, _, _, ⟨⟩, ⟨_, rfl, rfl, rfl⟩ | ⟨key, _, _, hkey, _⟩⟩
        · rfl
        · rw [hnext] at hkey
          cases hkey
    | some key =>
      dsimp only
      rw [behind_eq_ok_iff]
      constructor
      · intro hexists
        rcases hexists with ⟨others, after, hrest, hpages, hcalls⟩
        exact ⟨pages, before, between, rfl,
          .inr ⟨key, others, after, hnext, hrest, hpages, hcalls⟩⟩
      · intro hexists
        rcases hexists with ⟨_, _, _, ⟨⟩,
          ⟨hnone, _⟩ | ⟨_, others, after, hkey, hrest, hpages, hcalls⟩⟩
        · rw [hnext] at hnone
          cases hnone
        · cases hnext.symm.trans hkey
          exact ⟨others, after, hrest, hpages, hcalls⟩

end IndexedSearch.Traversal
