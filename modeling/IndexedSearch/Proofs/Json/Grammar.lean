import IndexedSearch.Proofs.Json.Numbers
import IndexedSearch.Proofs.Json.Quoted
import IndexedSearch.Proofs.Number.Written
import IndexedSearch.Text.Separated
import Mathlib.Data.List.Forall2

/-!
# The grammar of JSON text

Which texts a JSON value has: numerals and strings are written in any of their ways, the items of an
array and the fields of an object are separated by commas, and blanks may stand around every value,
name and token. The printer writes every value whose numbers are read as they were written.
-/

namespace IndexedSearch.Json

/-- The characters that may stand between tokens. -/
def isBlank (c : Char) : Bool := c = ' ' || c = '\t' || c = '\n' || c = '\r'

def AreBlanks (text : List Char) : Prop := ∀ c ∈ text, isBlank c = true

/-- A text with blanks around it. -/
def IsPadded (core text : List Char) : Prop :=
  ∃ before after, AreBlanks before ∧ AreBlanks after ∧ text = before ++ (core ++ after)

mutual

/-- A text of a value, from its first token to its last one. -/
inductive IsValue : Json → List Char → Prop
  | null : IsValue null ['n', 'u', 'l', 'l']
  | isTrue : IsValue (bool true) ['t', 'r', 'u', 'e']
  | isFalse : IsValue (bool false) ['f', 'a', 'l', 's', 'e']
  | number {value : Number} {numeral : Numeral} {text : List Char} (h : numeral.IsText text)
    (hvalue : Number.ofNumeral? numeral = some value) : IsValue (number value) text
  | string {value : String} {text : List Char} (h : IsQuoted value text) :
    IsValue (string value) text
  | emptyArray {blanks : List Char} (h : AreBlanks blanks) :
    IsValue (array []) ('[' :: (blanks ++ [']']))
  | array {items : List Json} {parts : List (List Char)} (hne : items ≠ [])
    (h : List.Forall₂ IsText items parts) :
    IsValue (array items) ('[' :: (Text.join ',' parts ++ [']']))
  | emptyObject {blanks : List Char} (h : AreBlanks blanks) :
    IsValue (object []) ('\x7b' :: (blanks ++ ['\x7d']))
  | object {fields : List (String × Json)} {parts : List (List Char)} (hne : fields ≠ [])
    (h : List.Forall₂ IsField fields parts) :
    IsValue (object fields) ('\x7b' :: (Text.join ',' parts ++ ['\x7d']))

/-- A text of a value, with blanks around it. -/
inductive IsText : Json → List Char → Prop
  | padded {json : Json} {core text : List Char} (h : IsValue json core)
    (hcore : IsPadded core text) : IsText json text

/-- A text of a field. -/
inductive IsField : String × Json → List Char → Prop
  | labelled {name : String} {value : Json} {quoted label text : List Char}
    (hname : IsQuoted name quoted) (hlabel : IsPadded quoted label) (h : IsText value text) :
    IsField (name, value) (label ++ ':' :: text)

end

/-! ## What is printed -/

variable {json : Json} {core : List Char}

theorem areBlanks_nil : AreBlanks [] := nofun

theorem isPadded_self (core : List Char) : IsPadded core core :=
  ⟨[], [], areBlanks_nil, areBlanks_nil, (List.append_nil core).symm⟩

theorem IsValue.isText (h : IsValue json core) : IsText json core := .padded h (isPadded_self core)

/-- The characters of a field. -/
def fieldChars (field : String × Json) : List Char := quote field.1 ++ ':' :: field.2.chars

theorem chars_append_moreItems (item : Json) (rest : List Json) :
    item.chars ++ moreItems rest = Text.join ',' ((item :: rest).map chars) ++ [']'] := by
  induction rest generalizing item with
  | nil => rfl
  | cons next rest ih =>
    rw [moreItems, List.cons_append, ih next]
    simp only [List.map_cons, Text.join_cons_cons, List.append_assoc, List.cons_append]

theorem chars_append_moreFields (field : String × Json) (rest : List (String × Json)) :
    fieldChars field ++ moreFields rest =
      Text.join ',' ((field :: rest).map fieldChars) ++ ['\x7d'] := by
  induction rest generalizing field with
  | nil => rfl
  | cons next rest ih =>
    have hmore : moreFields (next :: rest) = ',' :: (fieldChars next ++ moreFields rest) := by
      simp [moreFields, fieldChars]
    rw [hmore, ih next]
    simp only [List.map_cons, Text.join_cons_cons, List.append_assoc, List.cons_append]

theorem chars_array {items : List Json} (hne : items ≠ []) :
    (array items).chars = '[' :: (Text.join ',' (items.map chars) ++ [']']) := by
  obtain ⟨item, rest, rfl⟩ := List.exists_cons_of_ne_nil hne
  rw [chars, List.cons_append, chars_append_moreItems]

theorem chars_object {fields : List (String × Json)} (hne : fields ≠ []) :
    (object fields).chars = '\x7b' :: (Text.join ',' (fields.map fieldChars) ++ ['\x7d']) := by
  obtain ⟨⟨name, value⟩, rest, rfl⟩ := List.exists_cons_of_ne_nil hne
  rw [chars, List.cons_append, ← chars_append_moreFields]
  rfl

/-- A number is printed as one of its texts if it is read as it was written. -/
theorem isValue_number {value : Number} (h : Number.ofText? value.text = some value) :
    IsValue (number value) value.chars := by
  obtain ⟨numeral, htext, -⟩ := value.exists_isText_chars
  rw [Number.ofText?, Number.text, String.toList_ofList, htext.ofChars?_eq] at h
  exact .number htext h

mutual

/-- A value is printed as one of its texts if its numbers are read as they were written. -/
theorem isValue_chars (json : Json)
    (h : ∀ number ∈ json.numbers, Number.ofText? number.text = some number) :
    IsValue json json.chars := by
  cases json with
  | null => exact .null
  | bool value =>
    cases value with
    | true => exact .isTrue
    | false => exact .isFalse
  | number value => exact isValue_number (h value List.mem_cons_self)
  | string text => exact .string (isQuoted_quote text)
  | array items =>
    by_cases hne : items = []
    · rw [hne]
      exact .emptyArray areBlanks_nil
    · rw [chars_array hne]
      exact .array hne (areItems_chars items h)
  | object fields =>
    by_cases hne : fields = []
    · rw [hne]
      exact .emptyObject areBlanks_nil
    · rw [chars_object hne]
      exact .object hne (areFields_chars fields h)

theorem areItems_chars (items : List Json)
    (h : ∀ number ∈ numbersAll items, Number.ofText? number.text = some number) :
    List.Forall₂ IsText items (items.map chars) := by
  cases items with
  | nil => exact .nil
  | cons item rest =>
    rw [numbersAll, List.forall_mem_append] at h
    exact .cons (isValue_chars item h.1).isText (areItems_chars rest h.2)

theorem areFields_chars (fields : List (String × Json))
    (h : ∀ number ∈ numbersOfFields fields, Number.ofText? number.text = some number) :
    List.Forall₂ IsField fields (fields.map fieldChars) := by
  cases fields with
  | nil => exact .nil
  | cons field rest =>
    obtain ⟨name, value⟩ := field
    rw [numbersOfFields, List.forall_mem_append] at h
    exact .cons (.labelled (isQuoted_quote name) (isPadded_self _) (isValue_chars value h.1).isText)
      (areFields_chars rest h.2)

end

end IndexedSearch.Json
