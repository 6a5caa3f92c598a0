import IndexedSearch.SearchError
import IndexedSearch.Store.Page

/-!
# Reading page after page

The store is seen through the answers that it gives, one after another. A traversal sends a request,
and sends it again with the key of each page as its start, until the store has no more to give, the
stop rule is met, or a read fails. Its outcome holds the pages or the error, every call that the
store received, and the answers that were not needed.

The items of the pages are counted in natural numbers. A page says its count in 64 bits, and the sum
over the pages that are read is taken to fit in 64 bits, too: nothing is said of a count that
overflows.
-/

namespace IndexedSearch

/-- One answer of the store. -/
inductive Answer where
  | page (page : Page)
  | failure (cause : String)

/-- What a store says that has no answer left. -/
def noAnswerLeft : String := "script exhausted"

/-- A call that the store receives. -/
structure Call where
  operation : Operation
  request : Request

/-- The request as it is sent: a scan has no order, so its direction is left out. -/
def Request.sent (request : Request) : Request :=
  if request.isQuery then request else { request with forward := none }

/-- The call that a request makes. -/
def Request.call (request : Request) : Call := ⟨request.operation, request.sent⟩

/-- When to stop reading although there may be more pages. -/
inductive StopRule where
  | single
  | minimum (count : Nat)
  | exhaustive
deriving DecidableEq

/-- Reading stops once so many items are counted. -/
def StopRule.isMet : StopRule → (counted : Nat) → Bool
  | single, _ => true
  | minimum count, counted => count ≤ counted
  | exhaustive, _ => false

/-- The outcome of reading page after page. -/
structure Traversal where
  result : Except ReadError (List Page)
  calls : List Call
  unused : List Answer

namespace Traversal

/-- The outcome with one more page and call in front. -/
def precededBy (page : Page) (call : Call) (traversal : Traversal) : Traversal :=
  { traversal with
    result := traversal.result.map (page :: ·)
    calls := call :: traversal.calls }

/-- Reads on, with so many items counted before. -/
def resume (rule : StopRule) (counted : Nat) (request : Request) : List Answer → Traversal
  | [] => ⟨throw ⟨request, noAnswerLeft⟩, [request.call], []⟩
  | .failure cause :: unused => ⟨throw ⟨request, cause⟩, [request.call], unused⟩
  | .page page :: unused =>
    let counted := counted + page.count.toNat
    match page.nextKey with
    | none => ⟨return [page], [request.call], unused⟩
    | some key =>
      if rule.isMet counted then ⟨return [page], [request.call], unused⟩
      else
        (resume rule counted { request with startKey := some key } unused).precededBy
          page request.call

/-- Reads page after page, from a request and the answers of the store. -/
def run (rule : StopRule) (request : Request) (answers : List Answer) : Traversal :=
  resume rule 0 request answers

end Traversal

end IndexedSearch
