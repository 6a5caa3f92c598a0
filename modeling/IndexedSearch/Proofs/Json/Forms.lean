import IndexedSearch.Proofs.Json.Parts
import IndexedSearch.Proofs.Json.Reader

/-!
# Serialized forms

A serialized form is read back if reading what is written for a value gives the value. The text of
the form then is the JSON text of no form of another value.
-/

namespace IndexedSearch.Json

variable {α : Type} {write : α → Json} {read? : Json → Option α}

/-- What is written for a value is read as that value, and so is the text that is written: by the
reader here, and by whatever else reads it as JSON. -/
structure ReadsBack (write : α → Json) (read? : Json → Option α) : Prop where
  form : ∀ value, read? (write value) = some value
  isText : ∀ value, IsText (write value) (write value).text.toList
  text : ∀ value, (ofText? (write value).text).bind read? = some value
  anyReader : ∀ value json, IsText json (write value).text.toList → read? json = some value

/-- A form is read back from its text if its numbers are. -/
theorem readsBack_of_numbers (hread : ∀ value, read? (write value) = some value)
    (hnumbers : ∀ value, ∀ number ∈ (write value).numbers,
      Number.ofText? number.text = some number) : ReadsBack write read? := by
  have htext (value : α) : IsText (write value) (write value).text.toList := by
    rw [text, String.toList_ofList]
    exact (isValue_chars (write value) (hnumbers value)).isText
  refine ⟨hread, htext, fun value ↦ ?_, fun value json hjson ↦ ?_⟩
  · rw [ofText?_of_isText (htext value), Option.bind_some, hread]
  · have hsame := (ofText?_of_isText hjson).symm.trans (ofText?_of_isText (htext value))
    rw [Option.some.inj hsame, hread]

/-! ## Parts with a default -/

variable {fields : List (String × Json)} {name : String}

theorem defaulted?_of_lookup (write : α → Json) {part default : α}
    (h : fields.lookup name = some (write part)) (hread : read? (write part) = some part) :
    defaulted? fields name read? default = some part := by
  rw [defaulted?, h]
  exact hread

/-! ## Numbers of items -/

theorem numbersAll_map_eq_nil (h : ∀ item, (write item).numbers = []) (items : List α) :
    numbersAll (items.map write) = [] := by
  induction items with
  | nil => rfl
  | cons item rest ih => rw [List.map_cons, numbersAll, h, ih, List.append_nil]

end IndexedSearch.Json
