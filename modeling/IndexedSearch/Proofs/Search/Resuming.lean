import IndexedSearch.Proofs.Output.Merging
import IndexedSearch.Proofs.Request.Making
import IndexedSearch.Proofs.Store.Continuing
import IndexedSearch.Search.Basic

/-!
# Stopping and resuming a search

A search that stops once enough items are counted, and is resumed with the key at which it stopped,
finds what it finds when it reads everything at once, with the same calls to the store. The key
where a search starts makes no difference to its request but for the key itself.
-/

namespace IndexedSearch

open IndexedSearch.Filter (Clause)

/-- The starting key is passed on to the request and is used for nothing else. -/
theorem Request.forFilter_startKey (schema : Schema) (tree : Filter.Tree Clause) (options : Options)
    (key : Wire.Key) :
    Request.forFilter schema tree { options with startKey := some key } =
      (Request.forFilter schema tree options).map fun request ↦
        { request with startKey := some key } := by
  have hmake : Plan.make schema tree { options with startKey := some key } =
      Plan.make schema tree options := rfl
  rw [Request.forFilter, Request.forFilter, hmake]
  cases Plan.make schema tree options <;> rfl

namespace Search

variable {search : Search} {rule : StopRule} {answers unused : List Answer} {output : Output}
  {calls : List Call} {request : Request}

theorem request_startKey (search : Search) (key : Wire.Key) :
    (search.apply (.startKey key)).request = search.request.map fun request ↦
      { request with startKey := some key } := by
  rw [Search.request, Search.request, apply]
  dsimp only
  cases search.filter.build with
  | error error => rfl
  | ok tree => exact Request.forFilter_startKey search.table.schema tree search.options key

/-- A search that ends well has made its request, read pages and decoded them. -/
theorem run_eq_ok_iff (hrequest : search.request = .ok request) :
    search.run rule answers = ⟨.ok output, calls, unused⟩ ↔
      ∃ pages, Traversal.run rule request answers = ⟨.ok pages, calls, unused⟩ ∧
        (Merged.ofPages pages).decode search.decoder request.isPartial = .ok output := by
  rw [run, hrequest]
  dsimp only
  generalize Traversal.run rule request answers = traversal
  rcases traversal with ⟨result, made, left⟩
  rw [SearchRun.mk.injEq, bind_eq_ok_iff]
  simp only [mapError_eq_ok_iff, Traversal.mk.injEq]
  constructor
  · intro hexists
    rcases hexists with ⟨⟨pages, hpages, houtput⟩, hcalls, hunused⟩
    exact ⟨pages, ⟨hpages, hcalls, hunused⟩, houtput⟩
  · intro hexists
    rcases hexists with ⟨pages, ⟨hpages, hcalls, hunused⟩, houtput⟩
    exact ⟨⟨pages, hpages, houtput⟩, hcalls, hunused⟩

/-- Reading everything at once is stopping at some count and resuming from there. -/
theorem run_exhaustive_eq_ok_iff (search : Search) (count : Nat) (answers : List Answer)
    (output : Output) (calls : List Call) (unused : List Answer) :
    search.run .exhaustive answers = ⟨.ok output, calls, unused⟩ ↔
      ∃ first before between,
        search.run (.minimum count) answers = ⟨.ok first, before, between⟩ ∧
        ((first.nextKey = none ∧ first = output ∧ before = calls ∧ between = unused) ∨
          ∃ key second after, first.nextKey = some key ∧
            (search.apply (.startKey key)).run .exhaustive between =
              ⟨.ok second, after, unused⟩ ∧
            first.followedBy second = output ∧ before ++ after = calls) := by
  cases hrequest : search.request with
  | error error => simp [run, hrequest, throw, throwThe, MonadExceptOf.throw]
  | ok request =>
    have hresumed (key : Wire.Key) : (search.apply (.startKey key)).request =
        .ok { request with startKey := some key } := by
      rw [request_startKey, hrequest]
      rfl
    simp only [run_eq_ok_iff hrequest, run_eq_ok_iff (hresumed _)]
    constructor
    · intro hexists
      rcases hexists with ⟨all, hall, houtput⟩
      rcases (Traversal.exhaustive_eq_ok_iff (.minimum count)).1 hall with
        ⟨pages, before, between, hpages,
          ⟨hnone, rfl, rfl, rfl⟩ | ⟨key, others, after, hkey, hothers, rfl, rfl⟩⟩
      · -- The last page was met before the count was reached, or with it.
        have hnext : output.nextKey = none := (Merged.nextKey_of_decode houtput).trans hnone
        exact ⟨output, before, between, ⟨pages, hpages, houtput⟩, .inl ⟨hnext, rfl, rfl, rfl⟩⟩
      · -- The pages behind the stop are decoded by themselves.
        have hne := Traversal.ne_nil_of_resume (congrArg Traversal.result hothers)
        obtain ⟨first, second, hfirst, hsecond, rfl⟩ :=
          (Merged.decode_append_eq_ok_iff hne).1 houtput
        have hnext : first.nextKey = some key := (Merged.nextKey_of_decode hfirst).trans hkey
        exact ⟨first, before, between, ⟨pages, hpages, hfirst⟩,
          .inr ⟨key, second, after, hnext, ⟨others, hothers, hsecond⟩, rfl, rfl⟩⟩
    · intro hexists
      rcases hexists with ⟨first, before, between, ⟨pages, hpages, hfirst⟩,
        ⟨hnone, rfl, rfl, rfl⟩ | ⟨key, second, after, hkey, ⟨others, hothers, hsecond⟩, rfl, rfl⟩⟩
      · have hnext : Traversal.nextKey pages = none :=
          (Merged.nextKey_of_decode hfirst).symm.trans hnone
        exact ⟨pages, (Traversal.exhaustive_eq_ok_iff (.minimum count)).2
          ⟨pages, before, between, hpages, .inl ⟨hnext, rfl, rfl, rfl⟩⟩, hfirst⟩
      · have hnext : Traversal.nextKey pages = some key :=
          (Merged.nextKey_of_decode hfirst).symm.trans hkey
        have hne := Traversal.ne_nil_of_resume (congrArg Traversal.result hothers)
        exact ⟨pages ++ others, (Traversal.exhaustive_eq_ok_iff (.minimum count)).2
          ⟨pages, before, between, hpages, .inr ⟨key, others, after, hnext, hothers, rfl, rfl⟩⟩,
          (Merged.decode_append_eq_ok_iff hne).2 ⟨first, second, hfirst, hsecond, rfl⟩⟩

end Search

end IndexedSearch
