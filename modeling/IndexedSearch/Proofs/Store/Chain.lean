import IndexedSearch.Proofs.Store.Course

/-!
# The chain of requests

The calls of a traversal carry its request and differ only in where they start: the first one where
the request does, each later one at the key of the page that answered the call before it. They are
all queries or all scans, and a scan never has a direction.
-/

namespace IndexedSearch

/-- The call carries a request, wherever it starts. Only a query has the direction of it. -/
structure Call.Carries (call : Call) (request : Request) : Prop where
  operation : call.operation = if request.keyCondition.isSome then .query else .scan
  forward : call.request.forward = if request.keyCondition.isSome then request.forward else none
  others : { call.request with startKey := request.startKey, forward := request.forward } = request

theorem Request.startKey_sent (request : Request) : request.sent.startKey = request.startKey := by
  unfold sent
  split <;> rfl

/-- A request is carried by its own call. -/
theorem Request.carries_call (request : Request) : request.call.Carries request := by
  constructor
  · rfl
  · unfold call sent isQuery
    split <;> rfl
  · unfold call sent
    split <;> rfl

/-- A call that carries a request carries it from any other start as well. -/
theorem Call.Carries.of_startKey {call : Call} {request : Request} {key : Option Wire.Key}
    (h : call.Carries { request with startKey := key }) : call.Carries request := by
  constructor
  · exact h.operation
  · exact h.forward
  · exact congrArg (fun carried : Request ↦ { carried with startKey := request.startKey }) h.others

namespace Traversal

variable {rule : StopRule} {counted : Nat} {request : Request} {answers unused : List Answer}
  {calls : List Call} {page : Page} {key : Wire.Key} {traversal : Traversal}

/-- Calls that carry a request from page to page, answered one after another. -/
structure IsChain (request : Request) (answers : List Answer) (calls : List Call) : Prop where
  first : ∃ call, calls[0]? = some call ∧ call.request.startKey = request.startKey
  next : ∀ i call, calls[i + 1]? = some call → ∃ page key, answers[i]? = some (.page page) ∧
    page.nextKey = some key ∧ call.request.startKey = some key
  carries : ∀ call ∈ calls, call.Carries request

theorem IsChain.single (request : Request) (answers : List Answer) :
    IsChain request answers [request.call] := by
  constructor
  · exact ⟨request.call, rfl, request.startKey_sent⟩
  · intro i call hcall
    cases hcall
  · intro call hcall
    rw [List.mem_singleton.1 hcall]
    exact request.carries_call

/-- A chain from the key of a page goes on a chain that ends with the call for that page. -/
theorem IsChain.cons (hkey : page.nextKey = some key)
    (h : IsChain { request with startKey := some key } unused calls) :
    IsChain request (.page page :: unused) (request.call :: calls) := by
  constructor
  · exact ⟨request.call, rfl, request.startKey_sent⟩
  · intro i call hcall
    cases i with
    | zero =>
      -- The second call is the first one of the rest, which starts at the key.
      obtain ⟨first, hfirst, hstart⟩ := h.first
      cases hfirst.symm.trans hcall
      exact ⟨page, key, rfl, hkey, hstart⟩
    | succ i => exact h.next i call hcall
  · intro call hcall
    rcases List.mem_cons.1 hcall with rfl | hcall
    · exact request.carries_call
    · exact (h.carries call hcall).of_startKey

theorem Course.isChain (h : Course rule counted request answers traversal) :
    IsChain request answers traversal.calls := by
  induction h with
  | failed => exact .single _ _
  | ended => exact .single _ _
  | continued hkey _ _ ih => exact ih.cons hkey

/-- The calls of a traversal go on from page to page with its request. -/
theorem isChain_calls_run (rule : StopRule) (request : Request) (answers : List Answer) :
    IsChain request answers (run rule request answers).calls :=
  (course_resume rule 0 request answers).isChain

end Traversal

end IndexedSearch
