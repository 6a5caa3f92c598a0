import IndexedSearch.Output.Decoder
import IndexedSearch.Store.Page

/-!
# The result of a search

The pages of a search are merged in the order in which they were read, and their items are decoded
one by one. The key of the last page tells where to go on.

The counters of the pages are added as natural numbers. Their sums are taken to fit in 64 bits, as
each of the counters does: nothing is said of a sum that overflows.
-/

namespace IndexedSearch

/-- Pages put together, the items still as stored. -/
structure Merged where
  items : List Wire.Item
  count : Nat
  scannedCount : Nat
  nextKey : Option Wire.Key

/-- The documents that a search found. -/
structure Output where
  items : List Json
  count : Nat
  scannedCount : Nat
  nextKey : Option Wire.Key

/-- There is nothing more to read. -/
def Output.isComplete (output : Output) : Bool := output.nextKey.isNone

namespace Merged

/-- The sum of a counter over pages. -/
def total (counter : Page → UInt64) (pages : List Page) : Nat :=
  pages.foldr (fun page sum ↦ (counter page).toNat + sum) 0

/-- Puts pages together. -/
def ofPages (pages : List Page) : Merged :=
  { items := pages.flatMap Page.items
    count := total Page.count pages
    scannedCount := total Page.scannedCount pages
    nextKey := pages.getLast?.bind Page.nextKey }

/-- Decodes the items in order. The first one that cannot be decoded fails them all. -/
def decode (merged : Merged) (decoder : Decoder) (tolerant : Bool) :
    Except DecodeError Output := do
  let items ← merged.items.mapM (decoder tolerant)
  return {
    items
    count := merged.count
    scannedCount := merged.scannedCount
    nextKey := merged.nextKey }

end Merged

end IndexedSearch
