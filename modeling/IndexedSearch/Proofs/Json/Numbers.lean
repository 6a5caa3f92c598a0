import IndexedSearch.Json.Record

/-!
# The numbers in a JSON value

All numbers of a value, those of its items and fields included, from left to right.
-/

namespace IndexedSearch.Json

mutual

/-- The numbers of a value. -/
def numbers : Json → List Number
  | null => []
  | bool _ => []
  | number value => [value]
  | string _ => []
  | array items => numbersAll items
  | object fields => numbersOfFields fields

/-- The numbers of the items of an array. -/
def numbersAll : List Json → List Number
  | [] => []
  | item :: rest => item.numbers ++ numbersAll rest

/-- The numbers of the fields of an object. -/
def numbersOfFields : List (String × Json) → List Number
  | [] => []
  | (_, value) :: rest => value.numbers ++ numbersOfFields rest

end

theorem numbersOfFields_append (fields others : List (String × Json)) :
    numbersOfFields (fields ++ others) = numbersOfFields fields ++ numbersOfFields others := by
  induction fields with
  | nil => rfl
  | cons field rest ih =>
    rw [List.cons_append, numbersOfFields, numbersOfFields, ih, List.append_assoc]

theorem numbers_ofStrings (texts : List String) : (ofStrings texts).numbers = [] := by
  rw [ofStrings, numbers]
  induction texts with
  | nil => rfl
  | cons text rest ih => rw [List.map_cons, numbersAll, ih, numbers, List.append_nil]

theorem numbersOfFields_optionalField {α : Type} (name : String) (write : α → Json)
    (part? : Option α) :
    numbersOfFields (optionalField name write part?) =
      part?.elim [] fun part ↦ (write part).numbers := by
  cases part? with
  | none => rfl
  | some part => exact List.append_nil _

end IndexedSearch.Json
