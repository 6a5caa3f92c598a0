import IndexedSearch.Proofs.Output.Decoding

/-!
# Decoding with tolerance and without

Of all that may be wrong with an item, one thing is reported. Strict decoding reports the first
required attribute that the item lacks, in order of declaration. If it lacks none, or lacking some
is tolerated, the attribute with the first name is reported whose value has not the declared type.
Otherwise there is a document. The two ways of decoding agree just if the item lacks nothing.
-/

namespace IndexedSearch

theorem AttributeType.accepts_eq_false_iff {type : AttributeType} {value : Wire.Value} :
    type.accepts value = false ↔ value.tag ≠ .null ∧ value.tag ≠ type.tag := by
  simp [accepts]

theorem NameMap.Sorted.get?_eq_some_iff {α : Type} {entries : NameMap α} {name : String} {value : α}
    (h : entries.Sorted) : entries.get? name = some value ↔ (name, value) ∈ entries := by
  constructor
  · intro hget
    obtain ⟨before, after, rfl, -⟩ := h.exists_eq_append hget
    exact List.mem_append_right _ List.mem_cons_self
  · intro hmem
    obtain ⟨before, after, rfl⟩ := List.append_of_mem hmem
    rw [get?, List.lookup_eq_some_iff]
    refine ⟨before, after, rfl, ?_⟩
    intro earlier hearlier
    have hlt := (List.pairwise_append.1 h).2.2 earlier hearlier (name, value) List.mem_cons_self
    exact bne_iff_ne.2 (Std.ne_of_lt hlt).symm

namespace Decoder

variable {schema : Schema} {item : Wire.Item} {name : String} {value : Wire.Value} {tolerant : Bool}
  {declared : Attribute} {error : DecodeError} {outcome : Except DecodeError Json}

/-! ## What may be wrong with an item -/

/-- The item has every required attribute. -/
def IsComplete (schema : Schema) (item : Wire.Item) : Prop :=
  ∀ declared ∈ schema.attributes, declared.required = true →
    NameMap.contains item declared.physicalName = true

/-- The attribute is required and the item lacks it, but none of those declared before it. -/
def IsFirstMissing (schema : Schema) (item : Wire.Item) (declared : Attribute) : Prop :=
  ∃ before after, schema.attributes = before ++ declared :: after ∧ declared.required = true ∧
    NameMap.contains item declared.physicalName = false ∧
    ∀ earlier ∈ before, earlier.required = true →
      NameMap.contains item earlier.physicalName = true

/-- The item has a value for the first attribute with some stored name. The value is no null, and
not of the declared type. -/
structure IsMistyped (schema : Schema) (item : Wire.Item) (declared : Attribute)
    (value : Wire.Value) : Prop where
  stored : schema.IsFirstStored declared
  present : NameMap.get? item declared.physicalName = some value
  notNull : value.tag ≠ .null
  otherType : value.tag ≠ declared.type.tag

/-- No attribute of the item with a smaller name is mistyped. -/
structure IsFirstMistyped (schema : Schema) (item : Wire.Item) (declared : Attribute)
    (value : Wire.Value) : Prop extends IsMistyped schema item declared value where
  first : ∀ other otherValue, IsMistyped schema item other otherValue →
    ¬ other.physicalName < declared.physicalName

/-! ## Missing attributes -/

theorem missingAttribute?_eq_some_iff :
    missingAttribute? schema item = some declared ↔ IsFirstMissing schema item declared := by
  rw [missingAttribute?, List.find?_eq_some_iff_append, IsFirstMissing]
  constructor
  · intro h
    obtain ⟨hmissing, before, after, hattributes, hbefore⟩ := h
    simp only [Bool.and_eq_true, Bool.not_eq_true'] at hmissing
    refine ⟨before, after, hattributes, hmissing.1, hmissing.2, ?_⟩
    intro earlier hearlier hrequired
    simpa [hrequired] using hbefore earlier hearlier
  · intro h
    obtain ⟨before, after, hattributes, hrequired, hmissing, hbefore⟩ := h
    refine ⟨by simp [hrequired, hmissing], before, after, hattributes, ?_⟩
    intro earlier hearlier
    cases hother : earlier.required with
    | false => rfl
    | true => simpa using hbefore earlier hearlier hother

/-- An item lacks a first required attribute just if it lacks any. -/
theorem exists_isFirstMissing_iff :
    (∃ declared, IsFirstMissing schema item declared) ↔ ¬ IsComplete schema item := by
  rw [IsComplete, ← missingAttribute?_eq_none_iff]
  simp only [← missingAttribute?_eq_some_iff]
  exact Option.ne_none_iff_exists'.symm

/-! ## Mistyped attributes -/

theorem field_eq_error_iff :
    field schema name value = .error error ↔
      ∃ declared, schema.storedAttribute? name = some declared ∧
        declared.type.accepts value = false ∧
        .typeMismatch declared.property declared.type value.tag = error := by
  rw [field]
  cases schema.storedAttribute? name with
  | none => simp [pure_ne_error]
  | some declared =>
    cases haccepts : declared.type.accepts value with
    | false => simp [haccepts, throw_eq_error_iff]
    | true => simp [haccepts, pure_ne_error]

/-- A value that cannot become a field is mistyped. -/
theorem field_eq_error_iff_isMistyped (hget : NameMap.get? item name = some value) :
    field schema name value = .error error ↔
      ∃ declared, declared.physicalName = name ∧ IsMistyped schema item declared value ∧
        .typeMismatch declared.property declared.type value.tag = error := by
  rw [field_eq_error_iff]
  apply exists_congr
  intro declared
  rw [Schema.storedAttribute?_eq_some_iff, AttributeType.accepts_eq_false_iff]
  constructor
  · intro h
    obtain ⟨⟨hstored, rfl⟩, ⟨hnull, htype⟩, herror⟩ := h
    exact ⟨rfl, ⟨hstored, hget, hnull, htype⟩, herror⟩
  · intro h
    obtain ⟨rfl, hmistyped, herror⟩ := h
    exact ⟨⟨hmistyped.stored, rfl⟩, ⟨hmistyped.notNull, hmistyped.otherType⟩, herror⟩

/-- Of several mistyped attributes, the one with the first name is reported. -/
theorem ofSchema_tolerant_eq_error_iff (hitem : NameMap.Sorted item) :
    ofSchema schema true item = .error error ↔
      ∃ declared value, IsFirstMistyped schema item declared value ∧
        .typeMismatch declared.property declared.type value.tag = error := by
  rw [ofSchema_tolerant, map_eq_error_iff, mapM_eq_error_iff]
  constructor
  · intro h
    obtain ⟨before, ⟨name, value⟩, after, rfl, hbefore, herror⟩ := h
    have hget := hitem.get?_eq_some_iff.2 (List.mem_append_right before List.mem_cons_self)
    obtain ⟨declared, rfl, hmistyped, herror⟩ := (field_eq_error_iff_isMistyped hget).1 herror
    refine ⟨declared, value, ⟨hmistyped, ?_⟩, herror⟩
    intro other otherValue hother hlt
    -- What has a smaller name stands before, and became a field.
    rcases List.mem_append.1 (hitem.get?_eq_some_iff.1 hother.present) with hmem | hmem
    · obtain ⟨entry, hentry⟩ := hbefore _ hmem
      have hfailed := (field_eq_error_iff_isMistyped hother.present).2 ⟨other, rfl, hother, rfl⟩
      cases hentry.symm.trans hfailed
    · have hsorted := (List.pairwise_append.1 hitem).2.1
      rcases List.mem_cons.1 hmem with heq | hlater
      · exact Std.ne_of_lt hlt (congrArg Prod.fst heq)
      · exact String.lt_asymm hlt ((List.pairwise_cons.1 hsorted).1 _ hlater)
  · intro h
    obtain ⟨declared, value, hmistyped, herror⟩ := h
    obtain ⟨before, after, rfl, -⟩ := hitem.exists_eq_append hmistyped.present
    refine ⟨before, _, after, rfl, ?_, ?_⟩
    · intro earlier hearlier
      have hget := hitem.get?_eq_some_iff.2 (List.mem_append_left _ hearlier)
      have hlt := (List.pairwise_append.1 hitem).2.2 earlier hearlier _ List.mem_cons_self
      cases hfield : field schema earlier.1 earlier.2 with
      | ok entry => exact ⟨entry, hfield⟩
      | error cause =>
        obtain ⟨other, hname, hother, -⟩ := (field_eq_error_iff_isMistyped hget).1 hfield
        exact absurd (hname ▸ hlt) (hmistyped.first other earlier.2 hother)
    · exact (field_eq_error_iff_isMistyped hmistyped.present).2
        ⟨declared, rfl, hmistyped.toIsMistyped, herror⟩

theorem admits_iff_forall_not_isMistyped (hitem : NameMap.Sorted item) :
    Admits schema item ↔ ∀ declared value, ¬ IsMistyped schema item declared value := by
  constructor
  · intro h declared value hmistyped
    have hmem := hitem.get?_eq_some_iff.1 hmistyped.present
    have haccepts := h _ hmem declared hmistyped.stored.storedAttribute?_eq
    rw [AttributeType.accepts_eq_false_iff.2 ⟨hmistyped.notNull, hmistyped.otherType⟩] at haccepts
    cases haccepts
  · intro h stored hmem declared hdeclared
    obtain ⟨hfirst, hname⟩ := Schema.storedAttribute?_eq_some_iff.1 hdeclared
    by_contra haccepts
    obtain ⟨hnull, htype⟩ :=
      AttributeType.accepts_eq_false_iff.1 (Bool.eq_false_iff.2 haccepts)
    refine h declared stored.2 ⟨hfirst, ?_, hnull, htype⟩
    rw [hname]
    exact hitem.get?_eq_some_iff.2 hmem

/-- An item has a first mistyped attribute just if it has any. -/
theorem exists_isFirstMistyped_iff (hitem : NameMap.Sorted item) :
    (∃ declared value, IsFirstMistyped schema item declared value) ↔
      ∃ declared value, IsMistyped schema item declared value := by
  constructor
  · intro h
    obtain ⟨declared, value, hfirst⟩ := h
    exact ⟨declared, value, hfirst.toIsMistyped⟩
  · intro h
    cases houtcome : ofSchema schema true item with
    | error cause =>
      obtain ⟨declared, value, hfirst, -⟩ := (ofSchema_tolerant_eq_error_iff hitem).1 houtcome
      exact ⟨declared, value, hfirst⟩
    | ok document =>
      obtain ⟨declared, value, hmistyped⟩ := h
      have hadmits := (ofSchema_tolerant_eq_ok_iff.1 houtcome).1
      exact absurd hmistyped ((admits_iff_forall_not_isMistyped hitem).1 hadmits declared value)

/-! ## What comes of an item -/

/-- What decoding has to end with: one of two errors, or a document. -/
inductive IsDecodedTo (schema : Schema) (tolerant : Bool) (item : Wire.Item) :
    Except DecodeError Json → Prop
  | missing {declared : Attribute} (hstrict : tolerant = false)
    (h : IsFirstMissing schema item declared) :
    IsDecodedTo schema tolerant item (.error (.missingAttribute declared.property))
  | mistyped {declared : Attribute} {value : Wire.Value}
    (hcomplete : tolerant = false → IsComplete schema item)
    (h : IsFirstMistyped schema item declared value) :
    IsDecodedTo schema tolerant item
      (.error (.typeMismatch declared.property declared.type value.tag))
  | document (hcomplete : tolerant = false → IsComplete schema item)
    (h : ∀ declared value, ¬ IsMistyped schema item declared value) :
    IsDecodedTo schema tolerant item (.ok (.object (NameMap.ofList (fields schema item))))

/-- Where nothing is missing, or may be, decoding is that with tolerance. -/
theorem ofSchema_eq_tolerant (h : tolerant = false → IsComplete schema item) :
    ofSchema schema tolerant item = ofSchema schema true item := by
  cases tolerant with
  | true => rfl
  | false =>
    exact ofSchema_of_missingAttribute?_eq_none (missingAttribute?_eq_none_iff.2 (h rfl))

theorem ofSchema_eq_iff_isDecodedTo (hitem : NameMap.Sorted item) :
    ofSchema schema tolerant item = outcome ↔ IsDecodedTo schema tolerant item outcome := by
  constructor
  · rintro rfl
    by_cases hcomplete : tolerant = false → IsComplete schema item
    · rw [ofSchema_eq_tolerant hcomplete]
      cases houtcome : ofSchema schema true item with
      | error cause =>
        obtain ⟨declared, value, hfirst, rfl⟩ := (ofSchema_tolerant_eq_error_iff hitem).1 houtcome
        exact .mistyped hcomplete hfirst
      | ok document =>
        obtain ⟨hadmits, rfl⟩ := ofSchema_tolerant_eq_ok_iff.1 houtcome
        exact .document hcomplete ((admits_iff_forall_not_isMistyped hitem).1 hadmits)
    · obtain ⟨rfl, hincomplete⟩ := Classical.not_imp.1 hcomplete
      obtain ⟨declared, hfirst⟩ := exists_isFirstMissing_iff.2 hincomplete
      rw [ofSchema_strict_of_missingAttribute?_eq_some (missingAttribute?_eq_some_iff.2 hfirst)]
      exact .missing rfl hfirst
  · intro h
    cases h with
    | missing hstrict hfirst =>
      rw [hstrict]
      exact ofSchema_strict_of_missingAttribute?_eq_some (missingAttribute?_eq_some_iff.2 hfirst)
    | mistyped hcomplete hfirst =>
      rw [ofSchema_eq_tolerant hcomplete]
      exact (ofSchema_tolerant_eq_error_iff hitem).2 ⟨_, _, hfirst, rfl⟩
    | document hcomplete hnone =>
      rw [ofSchema_eq_tolerant hcomplete]
      exact ofSchema_tolerant_eq_ok_iff.2
        ⟨(admits_iff_forall_not_isMistyped hitem).2 hnone, rfl⟩

/-- Strict decoding is that with tolerance just if the item lacks nothing. -/
theorem ofSchema_strict_eq_tolerant_iff :
    ofSchema schema false item = ofSchema schema true item ↔ IsComplete schema item := by
  constructor
  · intro heq
    by_contra hincomplete
    obtain ⟨declared, hfirst⟩ := exists_isFirstMissing_iff.2 hincomplete
    have hstrict := missingAttribute?_eq_some_iff.2 hfirst
    rw [ofSchema_strict_of_missingAttribute?_eq_some hstrict] at heq
    exact ofSchema_tolerant_ne_missingAttribute heq.symm
  · intro hcomplete
    exact ofSchema_eq_tolerant fun _ ↦ hcomplete

/--
What comes of an item is determined, with tolerance and without: the first missing attribute if any
is missed, else the first mistyped one if there is any, else a document. Strict documents are
documents with tolerance, too, and what is refused with tolerance is refused without.
-/
theorem ofSchema_isDecodedTo (hitem : NameMap.Sorted item) :
    (∀ tolerant outcome,
      ofSchema schema tolerant item = outcome ↔ IsDecodedTo schema tolerant item outcome) ∧
    ((∃ declared, IsFirstMissing schema item declared) ↔
      ∃ declared ∈ schema.attributes, declared.required = true ∧
        NameMap.contains item declared.physicalName = false) ∧
    ((∃ declared value, IsFirstMistyped schema item declared value) ↔
      ∃ declared value, IsMistyped schema item declared value) ∧
    (ofSchema schema false item = ofSchema schema true item ↔ IsComplete schema item) ∧
    (∀ document, ofSchema schema false item = .ok document →
      ofSchema schema true item = .ok document) ∧
    ∀ error, ofSchema schema true item = .error error →
      ∃ other, ofSchema schema false item = .error other := by
  refine ⟨?_, ?_, exists_isFirstMistyped_iff hitem, ofSchema_strict_eq_tolerant_iff, ?_, ?_⟩
  · intro tolerant outcome
    exact ofSchema_eq_iff_isDecodedTo hitem
  · rw [exists_isFirstMissing_iff, IsComplete]
    push Not
    simp only [ne_eq, Bool.not_eq_true]
  · intro document hdocument
    obtain ⟨-, hadmits, hfields⟩ := ofSchema_eq_ok_iff.1 hdocument
    exact ofSchema_eq_ok_iff.2 ⟨nofun, hadmits, hfields⟩
  · intro error herror
    by_cases hcomplete : IsComplete schema item
    · exact ⟨error, (ofSchema_strict_eq_tolerant_iff.2 hcomplete).trans herror⟩
    · obtain ⟨declared, hfirst⟩ := exists_isFirstMissing_iff.2 hcomplete
      exact ⟨_, ofSchema_strict_of_missingAttribute?_eq_some
        (missingAttribute?_eq_some_iff.2 hfirst)⟩

/-! ## An item with four faults -/

def billing : Schema :=
  { name := "orders"
    key := ⟨"customer", none⟩
    globalIndexes := []
    localIndexes := []
    attributes :=
      [⟨"total", none, .number, false⟩, ⟨"paid", none, .boolean, true⟩,
        ⟨"buyer", some "customer", .string, true⟩, ⟨"due", none, .string, true⟩] }

/-- Two required attributes are missing, and both others have values of the wrong types. -/
def unbilled : Wire.Item := [("customer", .number "7"), ("total", .string "ten")]

theorem sorted_unbilled : NameMap.Sorted unbilled :=
  List.pairwise_pair.2 (by decide)

theorem ofSchema_isDecodedTo_example :
    NameMap.Sorted unbilled ∧
      IsDecodedTo billing false unbilled (.error (.missingAttribute "paid")) ∧
      IsDecodedTo billing true unbilled (.error (.typeMismatch "buyer" .string .number)) := by
  obtain ⟨hdecoded, -⟩ := @ofSchema_isDecodedTo billing _ sorted_unbilled
  exact ⟨sorted_unbilled, (hdecoded false _).1 rfl, (hdecoded true _).1 rfl⟩

end Decoder

end IndexedSearch
