import IndexedSearch.Wire.Value

/-!
# Declared attributes

A table may declare attributes: a property name for callers, the attribute name under which the
property is stored, and the type of its values.
-/

namespace IndexedSearch

/-- The type that a declared attribute has. -/
inductive AttributeType where
  | string
  | number
  | boolean
  | list
  | map
  | stringSet
  | numberSet
deriving DecidableEq

namespace AttributeType

/-- The spelling of a type. -/
def name : AttributeType → String
  | string => "String"
  | number => "Number"
  | boolean => "Boolean"
  | list => "List"
  | map => "Map"
  | stringSet => "StringSet"
  | numberSet => "NumberSet"

/-- The type of a spelling. -/
def ofName? : String → Option AttributeType
  | "String" => some string
  | "Number" => some number
  | "Boolean" => some boolean
  | "List" => some list
  | "Map" => some map
  | "StringSet" => some stringSet
  | "NumberSet" => some numberSet
  | _ => none

theorem ofName?_name (type : AttributeType) : ofName? type.name = some type := by
  cases type <;> rfl

/-- The tag of the values that the type describes. -/
def tag : AttributeType → Wire.Tag
  | string => .string
  | number => .number
  | boolean => .bool
  | list => .list
  | map => .map
  | stringSet => .stringSet
  | numberSet => .numberSet

/-- A value may stand where the type is declared. Every type admits a null. -/
def accepts (type : AttributeType) (value : Wire.Value) : Bool :=
  value.tag = .null || value.tag = type.tag

def toJson (type : AttributeType) : Json := .string type.name

def ofJson? (json : Json) : Option AttributeType := json.variant?.bind ofName?

@[simp] theorem ofJson?_toJson (type : AttributeType) : ofJson? type.toJson = some type :=
  ofName?_name type

end AttributeType

/-- A declared attribute. Without a stored name of its own it is stored under its property name. -/
structure Attribute where
  property : String
  storedAs : Option String
  type : AttributeType
  required : Bool
deriving DecidableEq

namespace Attribute

/-- The name under which the attribute is stored. -/
def physicalName (declared : Attribute) : String :=
  declared.storedAs.getD declared.property

/-- The serialized form. -/
def toJson (declared : Attribute) : Json :=
  .object <|
    [("property", .string declared.property)] ++
    Json.optionalField "attribute" .string declared.storedAs ++
    [("attr_type", declared.type.toJson), ("required", .bool declared.required)]

/-- Reads the serialized form; an attribute that does not say so is not required. -/
def ofJson? (json : Json) : Option Attribute := do
  let fields ← json.fields?
  return {
    property := ← Json.required? fields "property" Json.string?
    storedAs := ← Json.optional? fields "attribute" Json.string?
    type := ← Json.required? fields "attr_type" AttributeType.ofJson?
    required := ← Json.defaulted? fields "required" Json.bool? false }

end Attribute

end IndexedSearch
