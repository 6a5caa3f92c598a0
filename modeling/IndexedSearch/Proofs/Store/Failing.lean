import IndexedSearch.Proofs.Request.Text
import IndexedSearch.Proofs.Store.Course

/-!
# What the error of a failed read says

A traversal that fails does so with its last call. The error names the operation and the table of
that call and what the store said to it, and sending the request of the error again makes the same
call. The error shows the request as it was planned, which is the one that was sent unless it is a
scan with a direction: there the direction stands in the error, but was not sent.
-/

namespace IndexedSearch

namespace Request

variable {request other : Request}

/-- The text of a request says all of it. -/
theorem text_eq_text_iff : request.text = other.text ↔ request = other := by
  constructor
  · intro htext
    apply Option.some.inj
    calc
      some request = (Json.ofText? request.text).bind ofJson? := by
        rw [Json.ofText?_of_isText request.isText_text, Option.bind_some, ofJson?_toJson]
      _ = (Json.ofText? other.text).bind ofJson? := by rw [htext]
      _ = some other := by
        rw [Json.ofText?_of_isText other.isText_text, Option.bind_some, ofJson?_toJson]
  · exact congrArg text

theorem table_sent (request : Request) : request.sent.table = request.table := by
  unfold sent
  split <;> rfl

/-- A request is sent as it is unless it is a scan with a direction. -/
theorem sent_eq_self_iff :
    request.sent = request ↔ request.keyCondition.isSome = true ∨ request.forward = none := by
  rw [sent]
  split
  · rename_i hquery
    exact iff_of_true rfl (.inl hquery)
  · rename_i hscan
    constructor
    · intro hsame
      exact .inr (congrArg forward hsame).symm
    · intro hor
      rw [← hor.resolve_left hscan]

end Request

namespace Traversal

variable {rule : StopRule} {counted : Nat} {request : Request} {answers : List Answer}
  {traversal : Traversal} {error : ReadError}

/-- The calls end with that of the request of the error, which the store has answered with its
cause. -/
theorem Course.fails (h : Course rule counted request answers traversal)
    (herror : traversal.result = .error error) :
    ∃ before, traversal.calls = before ++ [error.request.call] ∧
      failureAt? answers before.length = some error.cause ∧
      ∃ key, error.request = { request with startKey := key } := by
  induction h with
  | @failed _ request _ _ h =>
    cases herror
    exact ⟨[], rfl, h, request.startKey, rfl⟩
  | ended => cases herror
  | @continued _ request _ _ key _ _ _ _ ih =>
    obtain ⟨before, hcalls, hcause, later, hrequest⟩ := ih (map_eq_error_iff.1 herror)
    refine ⟨request.call :: before, ?_, hcause, later, hrequest⟩
    rw [precededBy, hcalls, List.cons_append]

/--
The error of a failed read describes the last call, and its request makes that call. The text of
the request is that of the request that was sent, unless that is a scan with a direction.
-/
theorem exists_call_of_error (h : (run rule request answers).result = .error error) :
    ∃ before call, (run rule request answers).calls = before ++ [call] ∧
      failureAt? answers before.length = some error.cause ∧
      error.operation = call.operation ∧ error.table = call.request.table ∧
      error.request.call = call ∧
      (error.request.text = call.request.text ↔
        request.keyCondition.isSome = true ∨ request.forward = none) := by
  obtain ⟨before, hcalls, hcause, key, hrequest⟩ :=
    (course_resume rule 0 request answers).fails h
  refine ⟨before, error.request.call, hcalls, hcause, rfl, ?_, rfl, ?_⟩
  · exact (Request.table_sent error.request).symm
  · rw [Request.text_eq_text_iff, eq_comm]
    -- The key to go on from is all in which the failing request differs from the first one.
    rw [hrequest]
    exact Request.sent_eq_self_iff

/-! ## A failure on the second call -/

/-- A query in descending order. -/
def directedQuery : Request :=
  ⟨"orders", none, none, some "#n0 = :v0", none, [("#n0", "customer")], [(":v0", .string "c1")],
    none, none, none, none, some false⟩

def placedKey : Wire.Key := [("customer", .string "c1"), ("placed", .string "p1")]

def pageAndFailure : List Answer := [.page ⟨[], 0, 3, some placedKey⟩, .failure "refused"]

def directedQueryError : ReadError := ⟨{ directedQuery with startKey := some placedKey }, "refused"⟩

theorem result_directedQuery :
    (run (.minimum 1) directedQuery pageAndFailure).result = .error directedQueryError := rfl

theorem exists_call_of_error_example :
    (run (.minimum 1) directedQuery pageAndFailure).result = .error directedQueryError ∧
      ∃ before call,
        (run (.minimum 1) directedQuery pageAndFailure).calls = before ++ [call] ∧
        failureAt? pageAndFailure before.length = some directedQueryError.cause ∧
        directedQueryError.operation = call.operation ∧
        directedQueryError.table = call.request.table ∧
        directedQueryError.request.call = call ∧
        (directedQueryError.request.text = call.request.text ↔
          directedQuery.keyCondition.isSome = true ∨ directedQuery.forward = none) :=
  ⟨result_directedQuery, exists_call_of_error result_directedQuery⟩

/-! ## A direction that was not sent -/

/-- A scan that asks for an order, as no search plans it. -/
def directedScan : Request :=
  ⟨"orders", none, none, none, none, [], [], none, none, none, none, some true⟩

/-- The text of the error is not that of the only request that the store received. -/
theorem text_ne_text_of_directedScan :
    (run .single directedScan [.failure "refused"]).result = .error ⟨directedScan, "refused"⟩ ∧
      (run .single directedScan [.failure "refused"]).calls =
        [⟨.scan, { directedScan with forward := none }⟩] ∧
      directedScan.text ≠ { directedScan with forward := none }.text := by
  refine ⟨rfl, rfl, ?_⟩
  rw [ne_eq, Request.text_eq_text_iff]
  intro hsame
  cases congrArg Request.forward hsame

end Traversal

end IndexedSearch
