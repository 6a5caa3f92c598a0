import IndexedSearch.Proofs.Catalog.Names

/-!
# Names under which attributes are stored

A property leads to the name under which its attribute is stored, and a stored name leads to the
first attribute that is stored under it. In an accepted schema no property is declared twice, so the
way back from a stored name ends where it began unless an earlier attribute has the same stored
name.
-/

namespace IndexedSearch.Schema

variable {schema : Schema} {declared other : Attribute} {name : String}

/-- Some declared attribute is stored under the name. -/
def Stores (schema : Schema) (name : String) : Prop :=
  ∃ declared ∈ schema.attributes, declared.physicalName = name

/-- The attribute is declared, and none that is declared before it has the same stored name. -/
def IsFirstStored (schema : Schema) (declared : Attribute) : Prop :=
  ∃ before after, schema.attributes = before ++ declared :: after ∧
    ∀ earlier ∈ before, earlier.physicalName ≠ declared.physicalName

theorem IsFirstStored.mem (h : schema.IsFirstStored declared) : declared ∈ schema.attributes := by
  obtain ⟨before, after, hattributes, -⟩ := h
  rw [hattributes]
  exact List.mem_append_right _ List.mem_cons_self

theorem storedAttribute?_eq_none_iff :
    schema.storedAttribute? name = none ↔ ¬ schema.Stores name := by
  simp [storedAttribute?, Stores]

theorem storedAttribute?_eq_some_iff :
    schema.storedAttribute? name = some declared ↔
      schema.IsFirstStored declared ∧ declared.physicalName = name := by
  rw [storedAttribute?, List.find?_eq_some_iff_append, and_comm, decide_eq_true_iff]
  apply and_congr_left
  rintro rfl
  simp [IsFirstStored]

theorem IsFirstStored.storedAttribute?_eq (h : schema.IsFirstStored declared) :
    schema.storedAttribute? declared.physicalName = some declared :=
  storedAttribute?_eq_some_iff.2 ⟨h, rfl⟩

/-- A stored name leads to some attribute that is stored under it. -/
theorem exists_storedAttribute?_eq (h : schema.Stores name) :
    ∃ declared, schema.storedAttribute? name = some declared := by
  apply Option.ne_none_iff_exists'.1
  intro hnone
  exact storedAttribute?_eq_none_iff.1 hnone h

/-! ## Properties of an accepted schema -/

/-- No two attributes of an accepted schema have the same property. -/
theorem IsAccepted.nodup_properties (h : schema.IsAccepted) :
    (schema.attributes.map Attribute.property).Nodup :=
  (validate_eq_ok_iff.1 h.validate_eq_ok).1

theorem IsAccepted.eq_of_property_eq (h : schema.IsAccepted)
    (hdeclared : declared ∈ schema.attributes) (hother : other ∈ schema.attributes)
    (hproperty : declared.property = other.property) : declared = other :=
  List.inj_on_of_nodup_map h.nodup_properties hdeclared hother hproperty

/-- A property of an accepted schema leads to the stored name of its attribute. -/
theorem IsAccepted.physicalName_property (h : schema.IsAccepted)
    (hdeclared : declared ∈ schema.attributes) :
    schema.physicalName declared.property = declared.physicalName := by
  rw [physicalName, find?_name_eq_some h.nodup_properties hdeclared]

/-- The stored names of an accepted schema are all different just if each attribute is the first one
with its stored name. -/
theorem IsAccepted.nodup_physicalNames_iff (h : schema.IsAccepted) :
    (schema.attributes.map Attribute.physicalName).Nodup ↔
      ∀ declared ∈ schema.attributes, schema.IsFirstStored declared := by
  have hnodup := h.nodup_properties.of_map
  rw [List.nodup_map_iff_inj_on hnodup]
  constructor
  · intro hinjective declared hdeclared
    obtain ⟨found, hfound⟩ := exists_storedAttribute?_eq ⟨declared, hdeclared, rfl⟩
    obtain ⟨hfirst, hname⟩ := storedAttribute?_eq_some_iff.1 hfound
    rwa [← hinjective found hfirst.mem declared hdeclared hname]
  · intro hfirst declared hdeclared other hother hname
    apply Option.some.inj
    rw [← (hfirst declared hdeclared).storedAttribute?_eq, hname,
      (hfirst other hother).storedAttribute?_eq]

end IndexedSearch.Schema
