import IndexedSearch.Wire.Item

/-!
# Pages

The store answers a request with a page: some items, how many items it counted and how many it
looked at, and the key to go on from, if there may be more.
-/

namespace IndexedSearch

/-- A page of items. -/
structure Page where
  items : List Wire.Item
  count : UInt64
  scannedCount : UInt64
  nextKey : Option Wire.Key

namespace Page

/-- The serialized form. -/
def toJson (page : Page) : Json :=
  .object <|
    [("Items", .array (page.items.map Wire.Item.toJson)),
      ("Count", .number (.ofUInt64 page.count)),
      ("ScannedCount", .number (.ofUInt64 page.scannedCount))] ++
    Json.optionalField "LastEvaluatedKey" Wire.Item.toJson page.nextKey

/-- Reads the serialized form, where the items may be missing. -/
def ofJson? (json : Json) : Option Page := do
  let fields ← json.fields?
  return {
    items := ← Json.defaulted? fields "Items" (Json.listOf? Wire.Item.ofJson?) []
    count := ← Json.required? fields "Count" Json.uint64?
    scannedCount := ← Json.required? fields "ScannedCount" Json.uint64?
    nextKey := ← Json.optional? fields "LastEvaluatedKey" Wire.Item.ofJson? }

end Page

end IndexedSearch
