import IndexedSearch.Proofs.Request.Making
import IndexedSearch.Proofs.Store.Course
import IndexedSearch.Search.Basic

/-!
# A search sends the request that it shows

The request of a search can be looked at before anything is sent. A search that is run sends it
first, and as it was shown: an order is planned only together with a key condition, so no direction
is left out on the way. A search without a request does not reach the store.
-/

namespace IndexedSearch

open IndexedSearch.Filter (Clause)

variable {schema : Schema} {tree : Filter.Tree Clause} {options : Options} {request : Request}

/-- An order is planned only together with a key condition. -/
theorem Plan.order_eq_none_of_key {plan : Plan} (h : make schema tree options = .ok plan)
    (hscan : plan.key = none) : options.order = none := by
  obtain ⟨_, resolution, _, horder, projection, _, rfl⟩ := make_eq_ok_iff.1 h
  exact horder (List.map_eq_nil_iff.1 (Expression.Level.conjunction?_eq_none_iff.1 hscan))

namespace Request

/-- A planned scan has no direction. -/
theorem forward_eq_none_of_forFilter (h : forFilter schema tree options = .ok request)
    (hscan : request.keyCondition = none) : request.forward = none := by
  obtain ⟨plan, hplan, rfl⟩ := forFilter_eq_ok_iff.1 h
  have hkey : plan.key = none := by simpa [Plan.request, Plan.numberedKey] using hscan
  rw [Plan.request, Plan.order_eq_none_of_key hplan hkey]
  rfl

/-- A planned request is sent as it is. -/
theorem sent_of_forFilter (h : forFilter schema tree options = .ok request) :
    request.sent = request := by
  unfold sent
  split
  · rfl
  · rename_i hquery
    have hscan : request.keyCondition = none := by simpa [isQuery] using hquery
    rw [← forward_eq_none_of_forFilter h hscan]

end Request

namespace Search

variable {search : Search} {request : Request}

theorem request_eq_ok_iff :
    search.request = .ok request ↔ ∃ tree, search.filter.build = .ok tree ∧
      Request.forFilter search.table.schema tree search.options = .ok request := by
  rw [Search.request, bind_eq_ok_iff]
  simp only [mapError_eq_ok_iff]

/-- The request of a search makes a call with itself. -/
theorem call_of_request (h : search.request = .ok request) :
    request.call = ⟨if request.keyCondition.isSome then .query else .scan, request⟩ := by
  obtain ⟨tree, _, hrequest⟩ := request_eq_ok_iff.1 h
  rw [Request.call, Request.sent_of_forFilter hrequest]
  rfl

/-- Running a search begins with the call for its request, or with its mistake ends. -/
theorem run_of_request (search : Search) (rule : StopRule) (answers : List Answer) :
    (∀ request, search.request = .ok request → ∃ later,
      (search.run rule answers).calls =
        ⟨if request.keyCondition.isSome then .query else .scan, request⟩ :: later) ∧
    ∀ error, search.request = .error error →
      search.run rule answers = ⟨.error error, [], answers⟩ := by
  constructor
  · intro request hrequest
    rw [run, hrequest, ← call_of_request hrequest]
    exact (Traversal.course_resume rule 0 request answers).exists_calls_eq_cons
  · intro error herror
    rw [run, herror]
    rfl

/-! ## An example -/

/-- A search in descending order. -/
def descending (steps : List Filter.Step) : Search :=
  (ofTable (Table.ofSchema Example.schema)).applyAll
    (steps.map .filterStep ++ [.order .descending])

theorem request_descending :
    (descending Example.steps).request = .ok { Example.request with forward := some false } := by
  rw [request_eq_ok_iff]
  refine ⟨Example.tree, rfl, ?_⟩
  rfl

theorem run_of_request_example :
    (descending Example.steps).request = .ok { Example.request with forward := some false } ∧
      (∃ later, ((descending Example.steps).run .exhaustive []).calls =
        ⟨.query, { Example.request with forward := some false }⟩ :: later) ∧
      (descending []).request = .error (.usage .scanOrdering) ∧
      (descending []).run .single [.failure "refused"] =
        ⟨.error (.usage .scanOrdering), [], [.failure "refused"]⟩ :=
  ⟨request_descending, (run_of_request _ _ _).1 _ request_descending, rfl,
    (run_of_request _ _ _).2 _ rfl⟩

end Search

end IndexedSearch
