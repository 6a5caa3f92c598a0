import IndexedSearch.Filter.Builder
import IndexedSearch.Output.Merged
import IndexedSearch.Request.Plan
import IndexedSearch.Search.Table
import IndexedSearch.Store.Traversal

/-!
# Searches

A search is put together call by call: steps of its filter, and options of which the last setting
counts. Running it makes the request, reads pages until the stop rule is met, merges them and
decodes the items. Items are decoded with tolerance if the request asks for only some attributes.
-/

namespace IndexedSearch

/-- A search of a table. -/
structure Search where
  table : Table
  filter : Filter.Builder
  options : Options
  plain : Bool

/-- One call that shapes a search. -/
inductive SearchCall where
  | filterStep (step : Filter.Step)
  | usingIndex (name : String)
  | usingDescriptor (descriptor : Index.Descriptor)
  | limit (count : UInt32)
  | consistentRead (consistent : Bool)
  | order (order : Order)
  | select (names : List String)
  | count
  | startKey (key : Wire.Key)
  | plain

/-- The outcome of running a search. -/
structure SearchRun where
  result : Except SearchError Output
  calls : List Call
  unused : List Answer

namespace Search

/-- A search of everything in a table, with the defaults of the table. -/
def ofTable (table : Table) : Search :=
  { table
    filter := .empty
    options :=
      { index := .automatic
        limit := table.defaults.pageLimit
        consistentRead := table.defaults.consistentRead
        order := none
        projection := []
        countOnly := false
        startKey := none }
    plain := false }

/-- Follows one call. -/
def apply (search : Search) : SearchCall → Search
  | .filterStep step => { search with filter := search.filter.apply step }
  | .usingIndex name => { search with options.index := .named name }
  | .usingDescriptor descriptor => { search with options.index := .given descriptor }
  | .limit count => { search with options.limit := some count }
  | .consistentRead consistent => { search with options.consistentRead := consistent }
  | .order order => { search with options.order := some order }
  | .select names => { search with options.projection := names }
  | .count => { search with options.countOnly := true }
  | .startKey key => { search with options.startKey := some key }
  | .plain => { search with plain := true }

/-- Follows calls one after another. -/
def applyAll (search : Search) (calls : List SearchCall) : Search :=
  calls.foldl apply search

/-- The request, which is made without the store. -/
def request (search : Search) : Except SearchError Request := do
  let tree ← search.filter.build.mapError SearchError.usage
  Request.forFilter search.table.schema tree search.options

/-- The decoder of the items that are found. -/
def decoder (search : Search) : Decoder :=
  if search.plain then Decoder.plain else search.table.decoder

/-- Runs the search against a store that gives the answers. -/
def run (search : Search) (rule : StopRule) (answers : List Answer) : SearchRun :=
  match search.request with
  | .error error => ⟨throw error, [], answers⟩
  | .ok request =>
    let traversal := Traversal.run rule request answers
    { result := do
        let pages ← traversal.result.mapError SearchError.read
        ((Merged.ofPages pages).decode search.decoder request.isPartial).mapError .decode
      calls := traversal.calls
      unused := traversal.unused }

end Search

end IndexedSearch
