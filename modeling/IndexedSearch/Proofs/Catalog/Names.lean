import IndexedSearch.Catalog.Declaration
import IndexedSearch.Proofs.Outcome
import Mathlib.Data.List.Nodup

/-!
# Names in a schema

Attributes alone say under which names properties are stored. A schema is accepted if it is the
outcome of declarations. All indexes of an accepted schema, the global and the local ones together,
have different names, so that an index is found by its name, and no other index of either kind
stands in its way.
-/

namespace IndexedSearch

/-- No member repeats an earlier one, or one of those that were seen before, just if all of them are
different and none was seen. -/
theorem firstRepeated?_go_eq_none_iff {seen names : List String} :
    firstRepeated?.go seen names = none ↔ names.Nodup ∧ ∀ name ∈ names, name ∉ seen := by
  induction names generalizing seen with
  | nil => simp [firstRepeated?.go]
  | cons name rest ih =>
    rw [firstRepeated?.go, List.nodup_cons, List.forall_mem_cons]
    split
    · rename_i hseen
      exact iff_of_false (Option.some_ne_none name) fun h ↦ h.2.1 hseen
    · rename_i hnew
      rw [ih]
      constructor
      · intro h
        obtain ⟨hrest, hnotSeen⟩ := h
        simp only [List.mem_cons, not_or] at hnotSeen
        exact ⟨⟨fun hname ↦ (hnotSeen name hname).1 rfl, hrest⟩, hnew,
          fun other hother ↦ (hnotSeen other hother).2⟩
      · intro h
        obtain ⟨⟨hname, hrest⟩, -, hnotSeen⟩ := h
        refine ⟨hrest, ?_⟩
        intro other hother hmem
        rcases List.mem_cons.1 hmem with rfl | hmem
        · exact hname hother
        · exact hnotSeen other hother hmem

theorem firstRepeated?_eq_none_iff {names : List String} :
    firstRepeated? names = none ↔ names.Nodup := by
  simp [firstRepeated?, firstRepeated?_go_eq_none_iff]

/-- Among members with different names, a member is the first one of its name. -/
theorem find?_name_eq_some {α : Type} {name : α → String} {members : List α} {member : α}
    (h : (members.map name).Nodup) (hmem : member ∈ members) :
    (members.find? fun other ↦ name other = name member) = some member := by
  cases hfound : members.find? fun other ↦ name other = name member with
  | none =>
    have hnone := List.find?_eq_none.1 hfound member hmem
    simp at hnone
  | some found =>
    have hname : name found = name member := by simpa using List.find?_some hfound
    rw [List.inj_on_of_nodup_map h (List.mem_of_find?_eq_some hfound) hmem hname]

namespace Schema

variable {schema accepted : Schema}

/-- The schema is the outcome of declarations about a table. -/
def IsAccepted (schema : Schema) : Prop :=
  ∃ name declarations, ofDeclarations name declarations = .ok schema

/-- What has to be right for a schema to pass its checks, which do not change it. -/
theorem validate_eq_ok_iff :
    schema.validate = .ok accepted ↔
      (schema.attributes.map Attribute.property).Nodup ∧ schema.indexNames.Nodup ∧
        schema.undeclaredIndexKey? = none ∧ schema = accepted := by
  rw [← firstRepeated?_eq_none_iff, ← firstRepeated?_eq_none_iff, validate]
  split
  · rename_i hproperty
    simp [hproperty, throw_ne_ok]
  · rename_i hproperties
    split
    · rename_i hname
      simp [hname, throw_ne_ok]
    · rename_i hnames
      split
      · rename_i hkey
        simp [hkey, throw_ne_ok]
      · rename_i hkeys
        simp [hproperties, hnames, hkeys, pure_eq_ok_iff]

/-- An accepted schema has passed its checks. -/
theorem IsAccepted.validate_eq_ok (h : schema.IsAccepted) : schema.validate = .ok schema := by
  obtain ⟨name, declarations, hschema⟩ := h
  rw [ofDeclarations] at hschema
  split at hschema
  · cases hschema
  · obtain ⟨-, -, -, hsame⟩ := validate_eq_ok_iff.1 hschema
    rwa [hsame] at hschema

/-- No two indexes of an accepted schema have the same name. -/
theorem IsAccepted.nodup_indexNames (h : schema.IsAccepted) : schema.indexNames.Nodup :=
  (validate_eq_ok_iff.1 h.validate_eq_ok).2.1

/-! ## Looking names up -/

theorem physicalName_congr {other : Schema} (h : schema.attributes = other.attributes) :
    schema.physicalName = other.physicalName := by
  funext name
  rw [physicalName, h]
  rfl

theorem globalIndex?_of_mem (h : schema.indexNames.Nodup) {index : GlobalIndex}
    (hindex : index ∈ schema.globalIndexes) : schema.globalIndex? index.name = some index :=
  find?_name_eq_some (List.nodup_append.1 h).1 hindex

theorem localIndex?_of_mem (h : schema.indexNames.Nodup) {index : LocalIndex}
    (hindex : index ∈ schema.localIndexes) : schema.localIndex? index.name = some index :=
  find?_name_eq_some (List.nodup_append.1 h).2.1 hindex

theorem globalIndex?_eq_none_iff {name : String} :
    schema.globalIndex? name = none ↔ name ∉ schema.globalIndexes.map GlobalIndex.name := by
  simp [globalIndex?]

theorem localIndex?_eq_none_iff {name : String} :
    schema.localIndex? name = none ↔ name ∉ schema.localIndexes.map LocalIndex.name := by
  simp [localIndex?]

/-- The name of a local index is not that of a global one. -/
theorem globalIndex?_eq_none_of_mem_localIndexes (h : schema.indexNames.Nodup)
    {index : LocalIndex} (hindex : index ∈ schema.localIndexes) :
    schema.globalIndex? index.name = none := by
  rw [globalIndex?_eq_none_iff]
  intro hglobal
  exact (List.nodup_append.1 h).2.2 _ hglobal _ (List.mem_map_of_mem hindex) rfl

end Schema

end IndexedSearch
