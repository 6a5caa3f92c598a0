import IndexedSearch.Wire.Item
import IndexedSearch.Json.Printer

/-!
# Requests to the store

A request names a table and possibly an index, carries expressions with the tables of their
placeholders, and says how much to return and where to start. Parts that are not set are left out of
the serialized form, empty tables included.
-/

namespace IndexedSearch

/-- What the store returns for a match. -/
inductive Select where
  | specificAttributes
  | count
deriving DecidableEq

namespace Select

/-- The name in serialized forms. -/
def name : Select → String
  | specificAttributes => "SPECIFIC_ATTRIBUTES"
  | count => "COUNT"

/-- The selection of a name. -/
def ofName? : String → Option Select
  | "SPECIFIC_ATTRIBUTES" => some specificAttributes
  | "COUNT" => some count
  | _ => none

theorem ofName?_name (select : Select) : ofName? select.name = some select := by
  cases select <;> rfl

def toJson (select : Select) : Json := .string select.name

def ofJson? (json : Json) : Option Select := json.variant?.bind ofName?

@[simp] theorem ofJson?_toJson (select : Select) : ofJson? select.toJson = some select :=
  ofName?_name select

end Select

/-- A request for a page of items. -/
structure Request where
  table : String
  index : Option String
  consistentRead : Option Bool
  keyCondition : Option String
  filter : Option String
  names : NameMap String
  values : NameMap Wire.Value
  projection : Option String
  select : Option Select
  limit : Option UInt32
  startKey : Option Wire.Key
  forward : Option Bool

/-- The two ways to read from the store: through a key, or all of a table or index. -/
inductive Operation where
  | query
  | scan
deriving DecidableEq

/-- The name of the operation. -/
def Operation.name : Operation → String
  | query => "query"
  | scan => "scan"

namespace Request

/-- A key condition makes a request a query. -/
def isQuery (request : Request) : Bool := request.keyCondition.isSome

/-- The operation that the request asks for. -/
def operation (request : Request) : Operation := if request.isQuery then .query else .scan

/-- Items come back with only some of their attributes. -/
def isPartial (request : Request) : Bool := request.projection.isSome

/-- The field of a table of placeholders, left out when it is empty. -/
def tableField {α : Type} (name : String) (write : α → Json) (entries : NameMap α) :
    List (String × Json) :=
  if entries.isEmpty then [] else [(name, .object (entries.mapValues write))]

/-- The serialized form, with the fields in the order in which they are sent. -/
def toJson (request : Request) : Json :=
  .object <|
    [("TableName", .string request.table)] ++
    Json.optionalField "IndexName" .string request.index ++
    Json.optionalField "ConsistentRead" .bool request.consistentRead ++
    Json.optionalField "KeyConditionExpression" .string request.keyCondition ++
    Json.optionalField "FilterExpression" .string request.filter ++
    tableField "ExpressionAttributeNames" .string request.names ++
    tableField "ExpressionAttributeValues" Wire.Value.toJson request.values ++
    Json.optionalField "ProjectionExpression" .string request.projection ++
    Json.optionalField "Select" Select.toJson request.select ++
    Json.optionalField "Limit" (fun limit ↦ .number (.ofUInt32 limit)) request.limit ++
    Json.optionalField "ExclusiveStartKey" Wire.Item.toJson request.startKey ++
    Json.optionalField "ScanIndexForward" .bool request.forward

/-- Reads the serialized form. -/
def ofJson? (json : Json) : Option Request := do
  let fields ← json.fields?
  return {
    table := ← Json.required? fields "TableName" Json.string?
    index := ← Json.optional? fields "IndexName" Json.string?
    consistentRead := ← Json.optional? fields "ConsistentRead" Json.bool?
    keyCondition := ← Json.optional? fields "KeyConditionExpression" Json.string?
    filter := ← Json.optional? fields "FilterExpression" Json.string?
    names := ← Json.defaulted? fields "ExpressionAttributeNames" (Json.mapOf? Json.string?) []
    values := ←
      Json.defaulted? fields "ExpressionAttributeValues" (Json.mapOf? Wire.Value.ofJson?) []
    projection := ← Json.optional? fields "ProjectionExpression" Json.string?
    select := ← Json.optional? fields "Select" Select.ofJson?
    limit := ← Json.optional? fields "Limit" Json.uint32?
    startKey := ← Json.optional? fields "ExclusiveStartKey" Wire.Item.ofJson?
    forward := ← Json.optional? fields "ScanIndexForward" Json.bool? }

/-- The request as compact JSON text. -/
def text (request : Request) : String := request.toJson.text

end Request

end IndexedSearch
