import IndexedSearch.Proofs.Output.Decoding

/-!
# The fields of a document

Attributes under the names of their properties and attributes under names of their own stand side by
side in a document. In an accepted schema two attributes of an item get the same field only where
one that is not declared has the name of a property, and the attribute of that property is there as
well, stored under another name. The field then holds the one of the two whose name comes last.
-/

namespace IndexedSearch.Decoder

variable {schema : Schema} {item : Wire.Item} {name : String} {value : Wire.Value}
  {tolerant : Bool} {document : Json} {declared : Attribute}

/-! ## Names of fields -/

theorem names_fields (schema : Schema) (item : Wire.Item) :
    (fields schema item).map Prod.fst = (item.map Prod.fst).map (fieldName schema) := by
  simp [fields]

theorem fieldName_of_not_stores (h : ¬ schema.Stores name) : fieldName schema name = name := by
  rw [fieldName, Schema.storedAttribute?_eq_none_iff.2 h]
  rfl

theorem fieldName_of_storedAttribute?_eq_some (h : schema.storedAttribute? name = some declared) :
    fieldName schema name = declared.property := by
  rw [fieldName, h]
  rfl

theorem fieldName_of_isFirstStored (h : schema.IsFirstStored declared) :
    fieldName schema declared.physicalName = declared.property :=
  fieldName_of_storedAttribute?_eq_some h.storedAttribute?_eq

/-- The field of a property is that of its attribute, and of an attribute with its name that is not
declared. -/
theorem fieldName_eq_property_iff (h : schema.IsAccepted)
    (hdeclared : declared ∈ schema.attributes) :
    fieldName schema name = declared.property ↔
      schema.storedAttribute? name = some declared ∨
        ¬ schema.Stores name ∧ name = declared.property := by
  by_cases hstores : schema.Stores name
  · obtain ⟨found, hfound⟩ := Schema.exists_storedAttribute?_eq hstores
    have hmem := (Schema.storedAttribute?_eq_some_iff.1 hfound).1.mem
    rw [fieldName_of_storedAttribute?_eq_some hfound, hfound, Option.some.injEq,
      or_iff_left (fun hnot ↦ hnot.1 hstores)]
    exact ⟨h.eq_of_property_eq hmem hdeclared, congrArg Attribute.property⟩
  · rw [fieldName_of_not_stores hstores, Schema.storedAttribute?_eq_none_iff.2 hstores]
    simp [hstores]

/-! ## Two attributes with the same field -/

/-- The item has the attribute of a property under its stored name, and another one that is not
declared under the name of the property. -/
structure Overlaps (schema : Schema) (item : Wire.Item) (declared : Attribute) : Prop where
  firstStored : schema.IsFirstStored declared
  stored : NameMap.contains item declared.physicalName = true
  notStored : ¬ schema.Stores declared.property
  named : NameMap.contains item declared.property = true

/-- Two attributes with the same field overlap if one of them is declared. -/
theorem overlaps_of_fieldName_eq (h : schema.IsAccepted) {other : String}
    (hname : NameMap.contains item name = true) (hother : NameMap.contains item other = true)
    (hstored : schema.storedAttribute? name = some declared)
    (hfield : fieldName schema name = fieldName schema other) (hne : name ≠ other) :
    ¬ schema.Stores other ∧ declared.property = other ∧ Overlaps schema item declared := by
  obtain ⟨hfirst, rfl⟩ := Schema.storedAttribute?_eq_some_iff.1 hstored
  rw [fieldName_of_isFirstStored hfirst] at hfield
  rcases (fieldName_eq_property_iff h hfirst.mem).1 hfield.symm with hsame | ⟨hnot, rfl⟩
  · exact absurd (Schema.storedAttribute?_eq_some_iff.1 hsame).2 hne
  · exact ⟨hnot, rfl, hfirst, hname, hnot, hother⟩

/-- The fields have different names just if no two attributes overlap. -/
theorem nodup_fields_iff (h : schema.IsAccepted) (hitem : NameMap.Sorted item) :
    ((fields schema item).map Prod.fst).Nodup ↔ ∀ declared, ¬ Overlaps schema item declared := by
  rw [names_fields, List.nodup_map_iff_inj_on hitem.nodup]
  simp only [← NameMap.contains_iff_mem]
  constructor
  · intro hinjective declared hoverlaps
    have hfield := calc
      fieldName schema declared.physicalName = declared.property :=
        fieldName_of_isFirstStored hoverlaps.firstStored
      _ = fieldName schema declared.property := (fieldName_of_not_stores hoverlaps.notStored).symm
    have hsame := hinjective _ hoverlaps.stored _ hoverlaps.named hfield
    exact hoverlaps.notStored ⟨declared, hoverlaps.firstStored.mem, hsame⟩
  · intro hnone name hname other hother hfield
    by_contra hne
    by_cases hstores : schema.Stores name
    · obtain ⟨declared, hstored⟩ := Schema.exists_storedAttribute?_eq hstores
      exact hnone declared (overlaps_of_fieldName_eq h hname hother hstored hfield hne).2.2
    · by_cases hstoresOther : schema.Stores other
      · obtain ⟨declared, hstored⟩ := Schema.exists_storedAttribute?_eq hstoresOther
        have hoverlaps :=
          overlaps_of_fieldName_eq h hother hname hstored hfield.symm (Ne.symm hne)
        exact hnone declared hoverlaps.2.2
      · -- Neither is declared, so both keep their names.
        rw [fieldName_of_not_stores hstores, fieldName_of_not_stores hstoresOther] at hfield
        exact hne hfield

/-! ## Values of fields -/

/-- An attribute stays in its field unless one behind it gets the same field. -/
theorem get?_fields (hitem : NameMap.Sorted item) (hget : NameMap.get? item name = some value)
    (hlater : ∀ other, NameMap.contains item other = true → name < other →
      fieldName schema other ≠ fieldName schema name) :
    NameMap.get? (NameMap.ofList (fields schema item)) (fieldName schema name) =
      some value.toDocument := by
  obtain ⟨before, after, rfl, hafter⟩ := hitem.exists_eq_append hget
  rw [fields, List.map_append, List.map_cons]
  -- A sorted item has only larger names behind the attribute, and only fields from there matter.
  apply NameMap.get?_ofList_of_append
  intro later hmem
  obtain ⟨stored, hstored, rfl⟩ := List.mem_map.1 hmem
  apply hlater stored.1 _ (hafter stored hstored)
  apply NameMap.contains_iff_mem.2
  exact List.mem_map_of_mem (List.mem_append_right _ (List.mem_cons_of_mem _ hstored))

/-- A declared attribute stays in the field of its property if no attribute that overlaps it comes
behind. -/
theorem get?_property (h : schema.IsAccepted) (hitem : NameMap.Sorted item)
    (hfirst : schema.IsFirstStored declared)
    (hget : NameMap.get? item declared.physicalName = some value)
    (hlast : Overlaps schema item declared → declared.property < declared.physicalName) :
    NameMap.get? (NameMap.ofList (fields schema item)) declared.property =
      some value.toDocument := by
  rw [← fieldName_of_isFirstStored hfirst]
  apply get?_fields hitem hget
  intro other hother hlt hfield
  have hcontains : NameMap.contains item declared.physicalName = true :=
    Option.isSome_of_eq_some hget
  obtain ⟨-, rfl, hoverlaps⟩ := overlaps_of_fieldName_eq h hcontains hother
    hfirst.storedAttribute?_eq hfield.symm (Std.ne_of_lt hlt)
  exact String.lt_asymm hlt (hlast hoverlaps)

/-- An attribute that is not declared stays in its field if no attribute that it overlaps comes
behind. -/
theorem get?_undeclared (h : schema.IsAccepted) (hitem : NameMap.Sorted item)
    (hnot : ¬ schema.Stores name) (hget : NameMap.get? item name = some value)
    (hlast : ∀ declared, Overlaps schema item declared → declared.property = name →
      declared.physicalName < name) :
    NameMap.get? (NameMap.ofList (fields schema item)) name = some value.toDocument := by
  rw [← fieldName_of_not_stores hnot]
  apply get?_fields hitem hget
  intro other hother hlt hfield
  by_cases hstores : schema.Stores other
  · obtain ⟨declared, hstored⟩ := Schema.exists_storedAttribute?_eq hstores
    have hcontains : NameMap.contains item name = true := Option.isSome_of_eq_some hget
    obtain ⟨-, hproperty, hoverlaps⟩ := overlaps_of_fieldName_eq h hother hcontains hstored hfield
      (Std.ne_of_lt hlt).symm
    obtain ⟨-, rfl⟩ := Schema.storedAttribute?_eq_some_iff.1 hstored
    exact String.lt_asymm hlt (hlast declared hoverlaps hproperty)
  · rw [fieldName_of_not_stores hstores, fieldName_of_not_stores hnot] at hfield
    exact Std.ne_of_lt hlt hfield.symm

/-- Which attributes show up in the field of a property. -/
theorem contains_property_iff (h : schema.IsAccepted) (hdeclared : declared ∈ schema.attributes) :
    NameMap.contains (NameMap.ofList (fields schema item)) declared.property = true ↔
      schema.IsFirstStored declared ∧ NameMap.contains item declared.physicalName = true ∨
        ¬ schema.Stores declared.property ∧ NameMap.contains item declared.property = true := by
  have hexists : NameMap.contains (NameMap.ofList (fields schema item)) declared.property = true ↔
      ∃ name, NameMap.contains item name = true ∧ fieldName schema name = declared.property := by
    rw [NameMap.contains_ofList_iff, names_fields, List.mem_map]
    simp only [NameMap.contains_iff_mem]
  rw [hexists]
  simp only [fieldName_eq_property_iff h hdeclared, Schema.storedAttribute?_eq_some_iff]
  constructor
  · intro hname
    obtain ⟨name, hname, ⟨hfirst, rfl⟩ | ⟨hnot, rfl⟩⟩ := hname
    · exact .inl ⟨hfirst, hname⟩
    · exact .inr ⟨hnot, hname⟩
  · intro hor
    rcases hor with ⟨hfirst, hname⟩ | ⟨hnot, hname⟩
    · exact ⟨_, hname, .inl ⟨hfirst, rfl⟩⟩
    · exact ⟨_, hname, .inr ⟨hnot, rfl⟩⟩

/--
What the attributes of an item become in its document. Where two of them overlap, the field has the
value of the one whose name comes last; a property whose stored name belongs to an earlier property
has no field of its own.
-/
structure Shows (schema : Schema) (item : Wire.Item) (shown : NameMap Json) : Prop where
  sorted : shown.Sorted
  length : shown.length = item.length ↔ ∀ declared, ¬ Overlaps schema item declared
  declared : ∀ declared value, schema.IsFirstStored declared →
    NameMap.get? item declared.physicalName = some value →
    declared.type.accepts value = true ∧
      ((Overlaps schema item declared → declared.property < declared.physicalName) →
        shown.get? declared.property = some value.toDocument)
  undeclared : ∀ name value, ¬ schema.Stores name → NameMap.get? item name = some value →
    (∀ declared, Overlaps schema item declared → declared.property = name →
      declared.physicalName < name) →
    shown.get? name = some value.toDocument
  repeated : ∀ declared ∈ schema.attributes, ¬ schema.IsFirstStored declared →
    (shown.contains declared.property = true ↔
      ¬ schema.Stores declared.property ∧ NameMap.contains item declared.property = true)

/--
A document shows every attribute of its item, but for an overlap: there, one attribute is in the
place of another.
-/
theorem exists_shows_of_ofSchema (h : schema.IsAccepted) (hitem : NameMap.Sorted item)
    (hdocument : ofSchema schema tolerant item = .ok document) :
    ∃ shown, document = .object shown ∧ Shows schema item shown := by
  obtain ⟨-, hadmits, rfl⟩ := ofSchema_eq_ok_iff.1 hdocument
  refine ⟨_, rfl, ?_⟩
  constructor
  · exact NameMap.sorted_ofList _
  · have hlength : (fields schema item).length = item.length := List.length_map _
    rw [← hlength, NameMap.length_ofList_eq_iff, nodup_fields_iff h hitem]
  · intro declared value hfirst hget
    constructor
    · obtain ⟨before, after, rfl, -⟩ := hitem.exists_eq_append hget
      apply hadmits (declared.physicalName, value) _ declared hfirst.storedAttribute?_eq
      exact List.mem_append_right _ List.mem_cons_self
    · exact get?_property h hitem hfirst hget
  · intro name value hnot hget
    exact get?_undeclared h hitem hnot hget
  · intro declared hdeclared hnot
    rw [contains_property_iff h hdeclared, or_iff_right (fun hor ↦ hnot hor.1)]

/-! ## One field for two attributes -/

/-- A schema with a property that is stored under a shorter name. -/
def shortened : Schema :=
  ⟨"orders", ⟨"customer", none⟩, [], [], [⟨"email", some "em", .string, false⟩]⟩

/-- An item with an attribute under the name of the property, too. -/
def doubled : Wire.Item := [("em", .string "a@b.com"), ("email", .bool true)]

theorem isAccepted_shortened : shortened.IsAccepted :=
  ⟨"orders", [.hashKey "customer", .property ⟨"email", some "em", .string, false⟩], rfl⟩

theorem sorted_doubled : NameMap.Sorted doubled :=
  List.pairwise_pair.2 (by decide)

theorem ofSchema_shortened (tolerant : Bool) :
    ofSchema shortened tolerant doubled = .ok (.object [("email", .bool true)]) := by
  cases tolerant <;> rfl

theorem exists_shows_example :
    shortened.IsAccepted ∧ NameMap.Sorted doubled ∧
      ofSchema shortened false doubled = .ok (.object [("email", .bool true)]) ∧
      ∃ shown, Json.object [("email", .bool true)] = .object shown ∧
        Shows shortened doubled shown :=
  ⟨isAccepted_shortened, sorted_doubled, ofSchema_shortened false,
    exists_shows_of_ofSchema isAccepted_shortened sorted_doubled (ofSchema_shortened false)⟩

/-- The address is lost: an attribute that is not declared is in the field of its property. -/
theorem email_lost_of_doubled :
    shortened.IsAccepted ∧ NameMap.Sorted doubled ∧
      ∀ tolerant, ∃ shown, ofSchema shortened tolerant doubled = .ok (.object shown) ∧
        shown.length < doubled.length ∧
        NameMap.get? doubled "em" = some (.string "a@b.com") ∧
        NameMap.get? shown "email" ≠ some (Wire.Value.string "a@b.com").toDocument := by
  refine ⟨isAccepted_shortened, sorted_doubled, ?_⟩
  intro tolerant
  exact ⟨_, ofSchema_shortened tolerant, by decide, rfl,
    by simp [NameMap.get?, Wire.Value.toDocument]⟩

end IndexedSearch.Decoder
