import IndexedSearch.Output.Decoder
import IndexedSearch.Proofs.Catalog.Stored
import IndexedSearch.Proofs.NameMap

/-!
# Decoding by a schema

Strict decoding wants all required attributes first. What comes then is the same with tolerance and
without it: an attribute that is declared has to have its type and becomes the field of its
property, and any other attribute becomes a field under its own name.
-/

namespace IndexedSearch.Decoder

variable {schema : Schema} {item : Wire.Item} {name : String} {value : Wire.Value}
  {entry : String × Json} {entries : List (String × Json)} {tolerant : Bool} {document : Json}
  {declared : Attribute} {property : String} {error : DecodeError}

/-- Attributes of the item that are declared have values of their types. -/
def Admits (schema : Schema) (item : Wire.Item) : Prop :=
  ∀ stored ∈ item, ∀ declared, schema.storedAttribute? stored.1 = some declared →
    declared.type.accepts stored.2 = true

/-- The name of the field that an attribute becomes. -/
def fieldName (schema : Schema) (name : String) : String :=
  ((schema.storedAttribute? name).map Attribute.property).getD name

/-- The fields that the attributes of an item become. -/
def fields (schema : Schema) (item : Wire.Item) : List (String × Json) :=
  item.map fun (name, value) ↦ (fieldName schema name, value.toDocument)

/-! ## One attribute -/

theorem field_eq_ok_iff :
    field schema name value = .ok entry ↔
      (∀ declared, schema.storedAttribute? name = some declared →
        declared.type.accepts value = true) ∧
      (fieldName schema name, value.toDocument) = entry := by
  rw [field, fieldName]
  cases hstored : schema.storedAttribute? name with
  | none => simp [pure_eq_ok_iff]
  | some declared =>
    cases haccepts : declared.type.accepts value with
    | false => simp [haccepts, throw_ne_ok]
    | true => simp [haccepts, pure_eq_ok_iff]

theorem field_ne_missingAttribute :
    field schema name value ≠ .error (.missingAttribute property) := by
  rw [field]
  split
  · exact pure_ne_error
  · split
    · exact pure_ne_error
    · simp [throw_eq_error_iff]

/-! ## All attributes -/

theorem mapM_field_eq_ok_iff :
    item.mapM (fun (name, value) ↦ field schema name value) = .ok entries ↔
      Admits schema item ∧ fields schema item = entries := by
  rw [mapM_eq_ok_iff]
  simp only [field_eq_ok_iff]
  induction item generalizing entries with
  | nil =>
    rw [List.forall₂_nil_left_iff, Admits, fields, List.map_nil, eq_comm]
    exact (and_iff_right (List.forall_mem_nil _)).symm
  | cons stored rest ih =>
    rw [List.forall₂_cons_left_iff, Admits, List.forall_mem_cons]
    simp only [ih]
    constructor
    · intro hexists
      obtain ⟨entry, entries, ⟨haccepts, rfl⟩, ⟨hrest, rfl⟩, rfl⟩ := hexists
      exact ⟨⟨haccepts, hrest⟩, rfl⟩
    · intro h
      obtain ⟨⟨haccepts, hrest⟩, rfl⟩ := h
      exact ⟨_, _, ⟨haccepts, rfl⟩, ⟨hrest, rfl⟩, rfl⟩

theorem mapM_field_ne_missingAttribute :
    item.mapM (fun (name, value) ↦ field schema name value) ≠
      .error (.missingAttribute property) := by
  intro h
  obtain ⟨before, stored, after, -, -, hstored⟩ := mapM_eq_error_iff.1 h
  exact field_ne_missingAttribute hstored

/-! ## Items -/

theorem missingAttribute?_eq_none_iff :
    missingAttribute? schema item = none ↔
      ∀ declared ∈ schema.attributes, declared.required = true →
        NameMap.contains item declared.physicalName = true := by
  simp [missingAttribute?]

/-- With tolerance, only types matter. -/
theorem ofSchema_tolerant (schema : Schema) (item : Wire.Item) :
    ofSchema schema true item =
      (item.mapM fun (name, value) ↦ field schema name value).map fun entries ↦
        .object (NameMap.ofList entries) := rfl

/-- Strict decoding of an item that has everything is that with tolerance. -/
theorem ofSchema_of_missingAttribute?_eq_none (h : missingAttribute? schema item = none) :
    ofSchema schema tolerant item = ofSchema schema true item := by
  cases tolerant with
  | true => rfl
  | false => simp [ofSchema, h]

theorem ofSchema_strict_of_missingAttribute?_eq_some
    (h : missingAttribute? schema item = some declared) :
    ofSchema schema false item = .error (.missingAttribute declared.property) := by
  rw [ofSchema, h]
  rfl

theorem ofSchema_tolerant_eq_ok_iff :
    ofSchema schema true item = .ok document ↔
      Admits schema item ∧ .object (NameMap.ofList (fields schema item)) = document := by
  rw [ofSchema_tolerant, map_eq_ok_iff]
  simp only [mapM_field_eq_ok_iff, and_assoc, exists_and_left, exists_eq_left']

theorem ofSchema_tolerant_ne_missingAttribute :
    ofSchema schema true item ≠ .error (.missingAttribute property) := by
  rw [ofSchema_tolerant, ne_eq, map_eq_error_iff]
  exact mapM_field_ne_missingAttribute

/-- What it takes for an item to become a document, and which one. -/
theorem ofSchema_eq_ok_iff :
    ofSchema schema tolerant item = .ok document ↔
      (tolerant = false → missingAttribute? schema item = none) ∧ Admits schema item ∧
        .object (NameMap.ofList (fields schema item)) = document := by
  rw [← ofSchema_tolerant_eq_ok_iff]
  cases hmissing : missingAttribute? schema item with
  | none => simp [ofSchema_of_missingAttribute?_eq_none hmissing]
  | some declared =>
    cases tolerant with
    | false => simp [ofSchema_strict_of_missingAttribute?_eq_some hmissing]
    | true => simp

/-- An attribute is missed only without tolerance. -/
theorem ofSchema_eq_missingAttribute_iff :
    ofSchema schema tolerant item = .error (.missingAttribute property) ↔
      tolerant = false ∧ ∃ declared, missingAttribute? schema item = some declared ∧
        declared.property = property := by
  cases tolerant with
  | true => simp [ofSchema_tolerant_ne_missingAttribute]
  | false =>
    cases hmissing : missingAttribute? schema item with
    | none =>
      simp [ofSchema_of_missingAttribute?_eq_none hmissing, ofSchema_tolerant_ne_missingAttribute]
    | some declared => simp [ofSchema_strict_of_missingAttribute?_eq_some hmissing]

end IndexedSearch.Decoder
