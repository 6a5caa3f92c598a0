import IndexedSearch.Proofs.Output.Fields

/-!
# Required properties

From a property to its stored name, and from there to the attribute that is stored: in an accepted
schema this leads back to the property unless an attribute that is declared earlier has the same
stored name. Such a property has no field in any document, not even if it is required: its attribute
is there, but becomes the field of the earlier property.
-/

namespace IndexedSearch.Decoder

variable {schema : Schema} {item : Wire.Item} {document : Json} {declared found : Attribute}

/-! ## From a property and back -/

theorem storedAttribute?_property_eq_some_iff (h : schema.IsAccepted)
    (hdeclared : declared ∈ schema.attributes) :
    schema.storedAttribute? (schema.physicalName declared.property) = some found ↔
      schema.IsFirstStored found ∧ found.physicalName = declared.physicalName := by
  rw [h.physicalName_property hdeclared, Schema.storedAttribute?_eq_some_iff]

/-- A property leads back to its own attribute just if that is the first with its stored name. -/
theorem storedAttribute?_property_eq_self_iff (h : schema.IsAccepted)
    (hdeclared : declared ∈ schema.attributes) :
    schema.storedAttribute? (schema.physicalName declared.property) = some declared ↔
      schema.IsFirstStored declared := by
  rw [storedAttribute?_property_eq_some_iff h hdeclared, and_iff_left rfl]

/-! ## Strict documents -/

/-- An item that is decoded strictly has every required attribute. -/
theorem contains_of_ofSchema_strict (hdocument : ofSchema schema false item = .ok document)
    (hdeclared : declared ∈ schema.attributes) (hrequired : declared.required = true) :
    NameMap.contains item declared.physicalName = true := by
  obtain ⟨hnone, -, -⟩ := ofSchema_eq_ok_iff.1 hdocument
  exact missingAttribute?_eq_none_iff.1 (hnone rfl) declared hdeclared hrequired

/--
Properties and stored names lead to each other just if all stored names are different. A strict
document has a required property just if it leads back to itself, or if an attribute that is not
declared has its name.
-/
theorem contains_required_iff (h : schema.IsAccepted) :
    (∀ declared ∈ schema.attributes,
      (schema.storedAttribute? (schema.physicalName declared.property) = some declared ↔
        schema.IsFirstStored declared)) ∧
    ((∀ declared ∈ schema.attributes,
      schema.storedAttribute? (schema.physicalName declared.property) = some declared) ↔
        (schema.attributes.map Attribute.physicalName).Nodup) ∧
    ∀ item document, ofSchema schema false item = .ok document →
      ∃ shown, document = .object shown ∧
        ∀ declared ∈ schema.attributes, declared.required = true →
          (NameMap.contains shown declared.property = true ↔
            schema.IsFirstStored declared ∨
              ¬ schema.Stores declared.property ∧
                NameMap.contains item declared.property = true) := by
  refine ⟨?_, ?_, ?_⟩
  · intro declared hdeclared
    exact storedAttribute?_property_eq_self_iff h hdeclared
  · rw [h.nodup_physicalNames_iff]
    apply forall₂_congr
    intro declared hdeclared
    exact storedAttribute?_property_eq_self_iff h hdeclared
  · intro item document hdocument
    obtain ⟨-, -, rfl⟩ := ofSchema_eq_ok_iff.1 hdocument
    refine ⟨_, rfl, ?_⟩
    intro declared hdeclared hrequired
    have hstored := contains_of_ofSchema_strict hdocument hdeclared hrequired
    rw [contains_property_iff h hdeclared, and_iff_left hstored]

/-! ## A required property without a field -/

/-- Two properties are stored under one name. -/
def shared : Schema :=
  { name := "orders"
    key := ⟨"customer", none⟩
    globalIndexes := []
    localIndexes := []
    attributes :=
      [⟨"buyer", some "customer", .string, false⟩, ⟨"payer", some "customer", .string, true⟩] }

def ordered : Wire.Item := [("customer", .string "c1")]

theorem isAccepted_shared : shared.IsAccepted :=
  ⟨"orders", [.hashKey "customer", .property ⟨"buyer", some "customer", .string, false⟩,
    .property ⟨"payer", some "customer", .string, true⟩], rfl⟩

theorem ofSchema_shared :
    ofSchema shared false ordered = .ok (.object [("buyer", .string "c1")]) := rfl

theorem contains_required_example :
    shared.IsAccepted ∧
      ofSchema shared false ordered = .ok (.object [("buyer", .string "c1")]) ∧
      ∃ shown, Json.object [("buyer", .string "c1")] = .object shown ∧
        ∀ declared ∈ shared.attributes, declared.required = true →
          (NameMap.contains shown declared.property = true ↔
            shared.IsFirstStored declared ∨
              ¬ shared.Stores declared.property ∧
                NameMap.contains ordered declared.property = true) :=
  ⟨isAccepted_shared, ofSchema_shared,
    (contains_required_iff isAccepted_shared).2.2 ordered _ ofSchema_shared⟩

/-- The payer is required and leads to the buyer, and a strict document does not have it. -/
theorem payer_lost_of_shared :
    shared.IsAccepted ∧
      ∃ declared ∈ shared.attributes, declared.required = true ∧
        shared.storedAttribute? (shared.physicalName declared.property) ≠ some declared ∧
        ∃ shown, ofSchema shared false ordered = .ok (.object shown) ∧
          NameMap.contains shown declared.property = false := by
  refine ⟨isAccepted_shared, ⟨"payer", some "customer", .string, true⟩, ?_, rfl, ?_, _,
    ofSchema_shared, rfl⟩
  · exact List.mem_cons_of_mem _ List.mem_cons_self
  · decide

end IndexedSearch.Decoder
