import IndexedSearch.Output.Decoder

/-!
# Tables

A table is a schema, the decoder for its items, and what its searches ask for when nothing else is
said.
-/

namespace IndexedSearch

/-- What the searches of a table start with. -/
structure Defaults where
  consistentRead : Bool
  pageLimit : Option UInt32
deriving DecidableEq

namespace Defaults

/-- No limit, and no consistent reads. -/
def none : Defaults := ⟨false, .none⟩

/-- The serialized form; an absent limit is written as null. -/
def toJson (defaults : Defaults) : Json :=
  .object [("consistent_read", .bool defaults.consistentRead),
    ("page_limit", defaults.pageLimit.elim .null fun limit ↦ .number (.ofUInt32 limit))]

def ofJson? (json : Json) : Option Defaults := do
  let fields ← json.fields?
  return {
    consistentRead := ← Json.defaulted? fields "consistent_read" Json.bool? false
    pageLimit := ← Json.optional? fields "page_limit" Json.uint32? }

end Defaults

/-- A table that can be searched. -/
structure Table where
  schema : Schema
  decoder : Decoder
  defaults : Defaults

namespace Table

/-- A table whose items are decoded by its schema. -/
def ofSchema (schema : Schema) : Table := ⟨schema, Decoder.ofSchema schema, Defaults.none⟩

/-- The table with another decoder. -/
def withDecoder (table : Table) (decoder : Decoder) : Table := { table with decoder }

/-- The table with other defaults. -/
def withDefaults (table : Table) (defaults : Defaults) : Table := { table with defaults }

end Table

end IndexedSearch
