import IndexedSearch.Proofs.Json.Numbers
import IndexedSearch.Proofs.Number.Written
import IndexedSearch.Wire.Value

/-!
# Documents on the wire and back

A plain JSON value comes back from its tagged form just if its numbers are read as they were
written; all else is kept as it is. No two values have the same tagged form, for also the reals that
are not read back can be told apart by their texts.
-/

namespace IndexedSearch.Wire.Value

variable {number : Number} {json other : Json}

theorem numberDocument_text :
    numberDocument number.text = .number number ↔ Number.ofText? number.text = some number := by
  rw [numberDocument]
  split
  · rename_i hread
    rw [hread, Json.number.injEq, Option.some.injEq]
  · rename_i hread
    simp [hread]

mutual

theorem toDocument_ofDocument_iff (json : Json) : (ofDocument json).toDocument = json ↔
    ∀ number ∈ json.numbers, Number.ofText? number.text = some number := by
  cases json with
  | number value =>
    rw [ofDocument, toDocument, numberDocument_text, Json.numbers, List.forall_mem_singleton]
  | array items =>
    rw [ofDocument, toDocument, Json.array.injEq, Json.numbers]
    exact toDocuments_ofDocuments_iff items
  | object fields =>
    rw [ofDocument, toDocument, Json.object.injEq, Json.numbers]
    exact toDocumentFields_ofDocumentFields_iff fields
  | _ => simp [ofDocument, toDocument, Json.numbers]

theorem toDocuments_ofDocuments_iff (items : List Json) :
    toDocuments (ofDocuments items) = items ↔
      ∀ number ∈ Json.numbersAll items, Number.ofText? number.text = some number := by
  cases items with
  | nil => simp [ofDocuments, toDocuments, Json.numbersAll]
  | cons item rest =>
    rw [ofDocuments, toDocuments, List.cons.injEq, Json.numbersAll, List.forall_mem_append,
      toDocument_ofDocument_iff item, toDocuments_ofDocuments_iff rest]

theorem toDocumentFields_ofDocumentFields_iff (fields : List (String × Json)) :
    toDocumentFields (ofDocumentFields fields) = fields ↔
      ∀ number ∈ Json.numbersOfFields fields, Number.ofText? number.text = some number := by
  cases fields with
  | nil => simp [ofDocumentFields, toDocumentFields, Json.numbersOfFields]
  | cons field rest =>
    obtain ⟨name, value⟩ := field
    rw [ofDocumentFields, toDocumentFields, List.cons.injEq, Prod.mk.injEq, eq_self, true_and,
      Json.numbersOfFields, List.forall_mem_append, toDocument_ofDocument_iff value,
      toDocumentFields_ofDocumentFields_iff rest]

end

mutual

theorem ofDocument_eq_iff (json other : Json) :
    ofDocument json = ofDocument other ↔ json = other := by
  cases json with
  | number value =>
    cases other <;> simp [ofDocument, Number.text_injective.eq_iff]
  | array items =>
    cases other with
    | array others => simp [ofDocument, ofDocuments_eq_iff items others]
    | _ => simp [ofDocument]
  | object fields =>
    cases other with
    | object others => simp [ofDocument, ofDocumentFields_eq_iff fields others]
    | _ => simp [ofDocument]
  | _ => cases other <;> simp [ofDocument]

theorem ofDocuments_eq_iff (items others : List Json) :
    ofDocuments items = ofDocuments others ↔ items = others := by
  cases items with
  | nil => cases others <;> simp [ofDocuments]
  | cons item rest =>
    cases others with
    | nil => simp [ofDocuments]
    | cons other others =>
      simp [ofDocuments, ofDocument_eq_iff item other, ofDocuments_eq_iff rest others]

theorem ofDocumentFields_eq_iff (fields others : List (String × Json)) :
    ofDocumentFields fields = ofDocumentFields others ↔ fields = others := by
  cases fields with
  | nil => cases others <;> simp [ofDocumentFields]
  | cons field rest =>
    cases others with
    | nil => simp [ofDocumentFields]
    | cons other others =>
      obtain ⟨name, value⟩ := field
      obtain ⟨name', value'⟩ := other
      simp [ofDocumentFields, ofDocument_eq_iff value value',
        ofDocumentFields_eq_iff rest others]

end

/-- A value comes back from its tagged form just if its reals are read as they were written;
integers always are. No two values have one tagged form. -/
theorem ofDocument_readsBack :
    (∀ json, (ofDocument json).toDocument = json ↔
      ∀ x, .real x ∈ json.numbers → Number.ofText? (Number.real x).text = some (.real x)) ∧
    Function.Injective ofDocument := by
  refine ⟨fun json ↦ ?_, fun json other h ↦ (ofDocument_eq_iff json other).1 h⟩
  rw [toDocument_ofDocument_iff]
  constructor
  · exact fun h x hx ↦ h _ hx
  · intro h number hnumber
    by_cases hreal : ∃ x, number = .real x
    · obtain ⟨x, rfl⟩ := hreal
      exact h x hnumber
    · exact Number.ofText?_text fun x hx ↦ hreal ⟨x, hx⟩

/-! ## An example -/

/-- The integers at the ends of their ranges, minus zero, and the real number two. -/
def edgeNumbers : List Number :=
  [.natural 0 (by decide), .natural 18446744073709551615 (by decide),
    .negative 9223372036854775808 (by decide), .real (.zero true),
    .real ⟨false, 4503599627370496, 1023, by decide⟩]

def edgeDocument : Json :=
  .object [("edges", .array (edgeNumbers.map .number)), ("rest", .array [.null, .string "2.0"])]

theorem numbers_edgeDocument : edgeDocument.numbers = edgeNumbers := rfl

theorem ofText?_text_edgeNumbers :
    ∀ number ∈ edgeNumbers, Number.ofText? number.text = some number := by
  decide +kernel

theorem ofDocument_readsBack_example : (ofDocument edgeDocument).toDocument = edgeDocument :=
  (ofDocument_readsBack.1 edgeDocument).2 fun x hx ↦
    ofText?_text_edgeNumbers (.real x) (numbers_edgeDocument ▸ hx)

end IndexedSearch.Wire.Value
