import IndexedSearch.Wire.Value

/-!
# Items and keys

An item maps attribute names to attribute values. A key, which marks where a traversal of the store
stopped, has the same form.
-/

namespace IndexedSearch.Wire

/-- The attributes of a stored item, by name. -/
abbrev Item := NameMap Value

/-- The position at which a traversal stopped and from which it can go on. -/
abbrev Key := Item

namespace Item

/-- The item of a plain JSON object; any other value gives the item without attributes. -/
def ofDocument : Json → Item
  | .object fields => Value.ofDocumentFields fields
  | _ => []

/-- The item as a plain JSON object. -/
def toDocument (item : Item) : Json := .object (Value.toDocumentFields item)

/-- The tagged form: each value under its name. -/
def toJson (item : Item) : Json := .object (Value.toJsonFields item)

/-- Reads the tagged form. -/
def ofJson? : Json → Option Item
  | .object fields => Value.ofJsonFields? fields
  | _ => none

/-- Reading the tagged form gives the item back. -/
@[simp] theorem ofJson?_toJson (item : Item) : ofJson? item.toJson = some item :=
  Value.ofJsonFields?_toJsonFields item

end Item

end IndexedSearch.Wire
