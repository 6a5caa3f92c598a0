import IndexedSearch.Json.Basic

/-!
# Records and variants as JSON

A record is an object with a field for each of its parts. When it is read, fields of other names are
ignored; a part is required, or may be absent, in one of two ways: an optional part may also be
null, a part with a default may not. A variant with a payload is an object of exactly one field, and
a variant without payload is its name as a string, or such an object whose one field is null.

Records are read from objects only. An array of the parts in their order, without their names, is a
form in which other readers take a record as well; it is never written, and it is not read here.
-/

namespace IndexedSearch.Json

variable {α : Type}

/-! ## Reading -/

/-- The part of a name, which has to be there. -/
def required? (fields : List (String × Json)) (name : String) (read? : Json → Option α) :
    Option α :=
  (fields.lookup name).bind read?

/-- The part of a name, or none if it is absent or null. -/
def optional? (fields : List (String × Json)) (name : String) (read? : Json → Option α) :
    Option (Option α) :=
  match fields.lookup name with
  | none => some none
  | some null => some none
  | some value => (read? value).map some

/-- The part of a name, or the default if it is absent. -/
def defaulted? (fields : List (String × Json)) (name : String) (read? : Json → Option α)
    (default : α) : Option α :=
  match fields.lookup name with
  | none => some default
  | some value => read? value

/-- The name of a variant without payload. -/
def variant? : Json → Option String
  | string name => some name
  | object [(name, null)] => some name
  | _ => none

/-! ## Writing -/

/-- The field of an optional part, left out when there is none. -/
def optionalField (name : String) (write : α → Json) : Option α → List (String × Json)
  | none => []
  | some value => [(name, write value)]

end IndexedSearch.Json
