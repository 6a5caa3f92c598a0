import IndexedSearch.SearchError

/-!
# From items to documents

A decoder turns an item into a document. The plain one only drops the tags of the values. The one of
a schema also renames attributes to their properties, checks the types of declared attributes, and
wants every required attribute unless it is tolerant. Attributes that are not declared keep their
names.
-/

namespace IndexedSearch

/-- How items become documents; the flag asks for tolerance of missing attributes. -/
abbrev Decoder := (tolerant : Bool) → Wire.Item → Except DecodeError Json

namespace Decoder

/-- Drops the tags of the values. -/
def plain : Decoder := fun _ item ↦ return item.toDocument

/-- The first required attribute that the item does not have. -/
def missingAttribute? (schema : Schema) (item : Wire.Item) : Option Attribute :=
  schema.attributes.find? fun declared ↦
    declared.required && !NameMap.contains item declared.physicalName

/-- The field of a document that an attribute becomes. -/
def field (schema : Schema) (name : String) (value : Wire.Value) :
    Except DecodeError (String × Json) :=
  match schema.storedAttribute? name with
  | none => return (name, value.toDocument)
  | some declared =>
    if declared.type.accepts value then return (declared.property, value.toDocument)
    else throw (.typeMismatch declared.property declared.type value.tag)

/--
Decodes by a schema. Missing attributes are reported before wrong types, in order of declaration;
wrong types in the order of the names in the item.
-/
def ofSchema (schema : Schema) : Decoder := fun tolerant item ↦ do
  if !tolerant then
    if let some declared := missingAttribute? schema item then
      throw (.missingAttribute declared.property)
  let fields ← item.mapM fun (name, value) ↦ field schema name value
  return .object (NameMap.ofList fields)

end Decoder

end IndexedSearch
