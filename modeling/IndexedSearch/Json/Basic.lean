import IndexedSearch.NameMap
import IndexedSearch.Number.Basic

/-!
# JSON values

Documents, operands of conditions and all serialized forms are JSON values. An object is the list of
its fields; the objects of documents are sorted by name.
-/

namespace IndexedSearch

/-- A JSON value. -/
inductive Json where
  | null
  | bool (value : Bool)
  | number (value : Number)
  | string (value : String)
  | array (items : List Json)
  | object (fields : List (String × Json))
deriving Inhabited

namespace Json

/-- The fields of an object. -/
def fields? : Json → Option (List (String × Json))
  | object fields => some fields
  | _ => none

/-- The text of a string. -/
def string? : Json → Option String
  | string value => some value
  | _ => none

/-- The truth value. -/
def bool? : Json → Option Bool
  | bool value => some value
  | _ => none

/-- The items of an array. -/
def array? : Json → Option (List Json)
  | array items => some items
  | _ => none

/-- The 64-bit word that a number is. -/
def uint64? : Json → Option UInt64
  | number value => value.toUInt64?
  | _ => none

/-- The 32-bit word that a number is. -/
def uint32? : Json → Option UInt32
  | number value => value.toUInt32?
  | _ => none

/-- The items of an array, each read by `read?`. -/
def listOf? {α : Type} (read? : Json → Option α) (json : Json) : Option (List α) :=
  json.array?.bind fun items ↦ items.mapM read?

/-- The fields of an object, each value read by `read?`. -/
def mapOf? {α : Type} (read? : Json → Option α) (json : Json) : Option (NameMap α) :=
  json.fields?.bind fun fields ↦
    fields.mapM fun (name, value) ↦ (read? value).map fun value ↦ (name, value)

/-- The strings of an array. -/
def ofStrings (texts : List String) : Json := array (texts.map string)

/-- The strings of an array are read back. -/
@[simp] theorem listOf?_string?_ofStrings (texts : List String) :
    (ofStrings texts).listOf? string? = some texts := by
  induction texts with
  | nil => rfl
  | cons text rest ih =>
    simp only [listOf?, ofStrings, array?, Option.bind_some] at ih ⊢
    simp [List.mapM_cons, string?, ih]

/-- The string, or null. -/
def ofString? (text? : Option String) : Json := text?.elim null string

end Json

end IndexedSearch
