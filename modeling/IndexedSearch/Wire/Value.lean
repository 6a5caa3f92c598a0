import IndexedSearch.Json.Record

/-!
# Attribute values on the wire

The store exchanges every attribute value under a tag that names its type, and numbers as text.
`Value.ofDocument` gives a plain JSON value the tag of its own type and `Value.toDocument` drops the
tags again; `Value.toJson` and `Value.ofJson?` are the tagged form itself.
-/

namespace IndexedSearch.Wire

/-- The types of attribute values. -/
inductive Tag where
  | string
  | number
  | bool
  | null
  | list
  | map
  | stringSet
  | numberSet
deriving DecidableEq

/-- The spelling of a tag. -/
def Tag.name : Tag → String
  | string => "S"
  | number => "N"
  | bool => "BOOL"
  | null => "NULL"
  | list => "L"
  | map => "M"
  | stringSet => "SS"
  | numberSet => "NS"

/-- An attribute value. Numbers are held as text, whether or not the text is a numeral. -/
inductive Value where
  | string (text : String)
  | number (text : String)
  | bool (value : Bool)
  | null (flag : Bool)
  | list (items : List Value)
  | map (fields : List (String × Value))
  | stringSet (texts : List String)
  | numberSet (texts : List String)

namespace Value

/-- The type of a value. -/
def tag : Value → Tag
  | string _ => .string
  | number _ => .number
  | bool _ => .bool
  | null _ => .null
  | list _ => .list
  | map _ => .map
  | stringSet _ => .stringSet
  | numberSet _ => .numberSet

/-! ## Plain documents -/

mutual

/-- A plain JSON value under the tag of its own type. -/
def ofDocument : Json → Value
  | .null => null true
  | .bool value => bool value
  | .number value => number value.text
  | .string text => string text
  | .array items => list (ofDocuments items)
  | .object fields => map (ofDocumentFields fields)

/-- The values of an array. -/
def ofDocuments : List Json → List Value
  | [] => []
  | item :: rest => ofDocument item :: ofDocuments rest

/-- The values of an object, by name. -/
def ofDocumentFields : List (String × Json) → List (String × Value)
  | [] => []
  | (name, value) :: rest => (name, ofDocument value) :: ofDocumentFields rest

end

/-- The number that a text denotes; a text that denotes none stays a string. -/
def numberDocument (text : String) : Json :=
  match Number.ofText? text with
  | some value => .number value
  | none => .string text

mutual

/-- A value as plain JSON. Sets become arrays. -/
def toDocument : Value → Json
  | string text => .string text
  | number text => numberDocument text
  | bool value => .bool value
  | null _ => .null
  | list items => .array (toDocuments items)
  | map fields => .object (toDocumentFields fields)
  | stringSet texts => .ofStrings texts
  | numberSet texts => .array (texts.map numberDocument)

/-- The items of a list as plain JSON. -/
def toDocuments : List Value → List Json
  | [] => []
  | item :: rest => toDocument item :: toDocuments rest

/-- The fields of a map as plain JSON. -/
def toDocumentFields : List (String × Value) → List (String × Json)
  | [] => []
  | (name, value) :: rest => (name, toDocument value) :: toDocumentFields rest

end

theorem ofDocuments_eq_map (items : List Json) : ofDocuments items = items.map ofDocument := by
  induction items with
  | nil => rfl
  | cons item rest ih => simp [ofDocuments, ih]

theorem ofDocumentFields_eq_map (fields : List (String × Json)) :
    ofDocumentFields fields = fields.map fun field ↦ (field.1, ofDocument field.2) := by
  induction fields with
  | nil => rfl
  | cons field rest ih => simp [ofDocumentFields, ih]

theorem toDocuments_eq_map (items : List Value) : toDocuments items = items.map toDocument := by
  induction items with
  | nil => rfl
  | cons item rest ih => simp [toDocuments, ih]

theorem toDocumentFields_eq_map (fields : List (String × Value)) :
    toDocumentFields fields = fields.map fun field ↦ (field.1, toDocument field.2) := by
  induction fields with
  | nil => rfl
  | cons field rest ih => simp [toDocumentFields, ih]

/-! ## The tagged form -/

mutual

/-- The tagged form of a value. -/
def toJson : Value → Json
  | string text => .object [("S", .string text)]
  | number text => .object [("N", .string text)]
  | bool value => .object [("BOOL", .bool value)]
  | null flag => .object [("NULL", .bool flag)]
  | list items => .object [("L", .array (toJsons items))]
  | map fields => .object [("M", .object (toJsonFields fields))]
  | stringSet texts => .object [("SS", .ofStrings texts)]
  | numberSet texts => .object [("NS", .ofStrings texts)]

/-- The tagged forms of the items of a list. -/
def toJsons : List Value → List Json
  | [] => []
  | item :: rest => toJson item :: toJsons rest

/-- The tagged forms of the fields of a map. -/
def toJsonFields : List (String × Value) → List (String × Json)
  | [] => []
  | (name, value) :: rest => (name, toJson value) :: toJsonFields rest

end

mutual

/-- Reads the tagged form: an object of one field, named for the type. -/
def ofJson? : Json → Option Value
  | .object [("S", .string text)] => some (string text)
  | .object [("N", .string text)] => some (number text)
  | .object [("BOOL", .bool value)] => some (bool value)
  | .object [("NULL", .bool flag)] => some (null flag)
  | .object [("L", .array items)] => (ofJsons? items).map list
  | .object [("M", .object fields)] => (ofJsonFields? fields).map map
  | .object [("SS", texts)] => (texts.listOf? Json.string?).map stringSet
  | .object [("NS", texts)] => (texts.listOf? Json.string?).map numberSet
  | _ => none

/-- Reads the items of a list. -/
def ofJsons? : List Json → Option (List Value)
  | [] => some []
  | item :: rest => do return (← ofJson? item) :: (← ofJsons? rest)

/-- Reads the fields of a map. -/
def ofJsonFields? : List (String × Json) → Option (List (String × Value))
  | [] => some []
  | (name, value) :: rest => do return (name, ← ofJson? value) :: (← ofJsonFields? rest)

end

mutual

/-- Reading the tagged form gives the value back. -/
@[simp] theorem ofJson?_toJson (value : Value) : ofJson? value.toJson = some value := by
  cases value with
  | list items => simp [toJson, ofJson?, ofJsons?_toJsons items]
  | map fields => simp [toJson, ofJson?, ofJsonFields?_toJsonFields fields]
  | stringSet texts => simp [toJson, ofJson?]
  | numberSet texts => simp [toJson, ofJson?]
  | _ => rfl

theorem ofJsons?_toJsons (items : List Value) : ofJsons? (toJsons items) = some items := by
  cases items with
  | nil => rfl
  | cons item rest => simp [toJsons, ofJsons?, ofJson?_toJson item, ofJsons?_toJsons rest]

theorem ofJsonFields?_toJsonFields (fields : List (String × Value)) :
    ofJsonFields? (toJsonFields fields) = some fields := by
  cases fields with
  | nil => rfl
  | cons field rest =>
    simp [toJsonFields, ofJsonFields?, ofJson?_toJson field.2, ofJsonFields?_toJsonFields rest]

end

end Value

end IndexedSearch.Wire
