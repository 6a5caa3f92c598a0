import IndexedSearch.Catalog.Attribute

/-!
# Table schemas

A schema names the key attributes of a table, its global and local secondary indexes and its
declared attributes, each in order of declaration. Looking a name up finds the first declaration.
-/

namespace IndexedSearch

/-- The attributes that a secondary index carries. -/
inductive Projection where
  | all
  | keysOnly
  | including (attributes : List String)
deriving DecidableEq

namespace Projection

/-- The index carries every attribute, so any filter can be evaluated on it. -/
def isAll : Projection → Bool
  | all => true
  | _ => false

/-- The serialized form. -/
def toJson : Projection → Json
  | all => .string "ALL"
  | keysOnly => .string "KEYS_ONLY"
  | including attributes => .object [("INCLUDE", .ofStrings attributes)]

/-- Reads the serialized form. -/
def ofJson? (json : Json) : Option Projection :=
  match json with
  | .object [("INCLUDE", attributes)] => (attributes.listOf? Json.string?).map including
  | _ =>
    match json.variant? with
    | some "ALL" => some all
    | some "KEYS_ONLY" => some keysOnly
    | _ => none

end Projection

/-- The key attributes of a table. -/
structure KeyAttributes where
  hash : String
  range : Option String
deriving DecidableEq

namespace KeyAttributes

def toJson (key : KeyAttributes) : Json :=
  .object <| [("hash", .string key.hash)] ++ Json.optionalField "range" .string key.range

def ofJson? (json : Json) : Option KeyAttributes := do
  let fields ← json.fields?
  return {
    hash := ← Json.required? fields "hash" Json.string?
    range := ← Json.optional? fields "range" Json.string? }

end KeyAttributes

/-- A global secondary index, with key attributes of its own. -/
structure GlobalIndex where
  name : String
  hash : String
  range : Option String
  projection : Projection
deriving DecidableEq

namespace GlobalIndex

def toJson (index : GlobalIndex) : Json :=
  .object <|
    [("name", .string index.name), ("hash", .string index.hash)] ++
    Json.optionalField "range" .string index.range ++
    [("projection", index.projection.toJson)]

def ofJson? (json : Json) : Option GlobalIndex := do
  let fields ← json.fields?
  return {
    name := ← Json.required? fields "name" Json.string?
    hash := ← Json.required? fields "hash" Json.string?
    range := ← Json.optional? fields "range" Json.string?
    projection := ← Json.required? fields "projection" Projection.ofJson? }

end GlobalIndex

/-- A local secondary index. It shares the hash attribute of the table. -/
structure LocalIndex where
  name : String
  range : String
  projection : Projection
deriving DecidableEq

namespace LocalIndex

def toJson (index : LocalIndex) : Json :=
  .object [("name", .string index.name), ("range", .string index.range),
    ("projection", index.projection.toJson)]

def ofJson? (json : Json) : Option LocalIndex := do
  let fields ← json.fields?
  return {
    name := ← Json.required? fields "name" Json.string?
    range := ← Json.required? fields "range" Json.string?
    projection := ← Json.required? fields "projection" Projection.ofJson? }

end LocalIndex

/-- The description of a table. -/
structure Schema where
  name : String
  key : KeyAttributes
  globalIndexes : List GlobalIndex
  localIndexes : List LocalIndex
  attributes : List Attribute
deriving DecidableEq

namespace Schema

/--
The attribute name of a property. A name that is no declared property stands for itself, so that
callers may use attribute names, too.
-/
def physicalName (schema : Schema) (name : String) : String :=
  match schema.attributes.find? fun declared ↦ declared.property = name with
  | some declared => declared.physicalName
  | none => name

/-- The attribute that is stored under a name. -/
def storedAttribute? (schema : Schema) (name : String) : Option Attribute :=
  schema.attributes.find? fun declared ↦ declared.physicalName = name

/-- The global index of a name. -/
def globalIndex? (schema : Schema) (name : String) : Option GlobalIndex :=
  schema.globalIndexes.find? fun index ↦ index.name = name

/-- The local index of a name. -/
def localIndex? (schema : Schema) (name : String) : Option LocalIndex :=
  schema.localIndexes.find? fun index ↦ index.name = name

/-- The serialized form, which reading does not validate any further. -/
def toJson (schema : Schema) : Json :=
  .object [("name", .string schema.name), ("primary_key", schema.key.toJson),
    ("global_indexes", .array (schema.globalIndexes.map GlobalIndex.toJson)),
    ("local_indexes", .array (schema.localIndexes.map LocalIndex.toJson)),
    ("attributes", .array (schema.attributes.map Attribute.toJson))]

/-- Reads the serialized form, where each of the three lists may be missing. -/
def ofJson? (json : Json) : Option Schema := do
  let fields ← json.fields?
  return {
    name := ← Json.required? fields "name" Json.string?
    key := ← Json.required? fields "primary_key" KeyAttributes.ofJson?
    globalIndexes := ←
      Json.defaulted? fields "global_indexes" (Json.listOf? GlobalIndex.ofJson?) []
    localIndexes := ← Json.defaulted? fields "local_indexes" (Json.listOf? LocalIndex.ofJson?) []
    attributes := ← Json.defaulted? fields "attributes" (Json.listOf? Attribute.ofJson?) [] }

end Schema

end IndexedSearch
