import IndexedSearch.Proofs.Catalog.Keys
import IndexedSearch.Proofs.Index.Naming

/-!
# What comes of declarations

Without a hash attribute nothing is checked. After that the first repeated property is reported,
then the first repeated name of an index, then, if any attribute is declared, the first key
attribute of an index that none is stored under. Otherwise the schema has what was declared, in the
same order and under the last key attributes, and the name of every declared index leads to that
index.
-/

namespace IndexedSearch

/-- The name repeats one before it, and none of those before repeats another one. -/
def IsFirstRepeated (names : List String) (name : String) : Prop :=
  ∃ before after, names = before ++ name :: after ∧ before.Nodup ∧ name ∈ before

theorem firstRepeated?_go_eq_some_iff {seen names : List String} {name : String} :
    firstRepeated?.go seen names = some name ↔
      ∃ before after, names = before ++ name :: after ∧ before.Nodup ∧
        (∀ earlier ∈ before, earlier ∉ seen) ∧ (name ∈ before ∨ name ∈ seen) := by
  induction names generalizing seen with
  | nil => simp [firstRepeated?.go]
  | cons head rest ih =>
    rw [firstRepeated?.go]
    split
    · rename_i hseen
      constructor
      · intro h
        cases h
        exact ⟨[], rest, rfl, List.nodup_nil, List.forall_mem_nil _, .inr hseen⟩
      · intro h
        obtain ⟨before, after, hnames, -, hbefore, -⟩ := h
        cases before with
        | nil =>
          cases hnames
          rfl
        | cons earlier before =>
          cases hnames
          exact absurd hseen (hbefore head List.mem_cons_self)
    · rename_i hnew
      rw [ih]
      constructor
      · intro h
        obtain ⟨before, after, rfl, hnodup, hbefore, hname⟩ := h
        refine ⟨head :: before, after, rfl, ?_, ?_, ?_⟩
        · exact List.nodup_cons.2 ⟨fun hhead ↦ hbefore head hhead List.mem_cons_self, hnodup⟩
        · refine List.forall_mem_cons.2 ⟨hnew, fun earlier hearlier hseen ↦ ?_⟩
          exact hbefore earlier hearlier (List.mem_cons_of_mem _ hseen)
        · rcases hname with hbefore | hseen
          · exact .inl (List.mem_cons_of_mem _ hbefore)
          · rcases List.mem_cons.1 hseen with rfl | hseen
            · exact .inl List.mem_cons_self
            · exact .inr hseen
      · intro h
        obtain ⟨before, after, hnames, hnodup, hbefore, hname⟩ := h
        cases before with
        | nil =>
          cases hnames
          exact absurd (hname.resolve_left List.not_mem_nil) hnew
        | cons earlier before =>
          cases hnames
          obtain ⟨hhead, hnodup⟩ := List.nodup_cons.1 hnodup
          refine ⟨before, after, rfl, hnodup, ?_, ?_⟩
          · intro other hother hseen
            rcases List.mem_cons.1 hseen with rfl | hseen
            · exact hhead hother
            · exact hbefore other (List.mem_cons_of_mem _ hother) hseen
          · rcases hname with hmem | hseen
            · rcases List.mem_cons.1 hmem with rfl | hmem
              · exact .inr List.mem_cons_self
              · exact .inl hmem
            · exact .inr (List.mem_cons_of_mem _ hseen)

theorem firstRepeated?_eq_some_iff {names : List String} {name : String} :
    firstRepeated? names = some name ↔ IsFirstRepeated names name := by
  simp [firstRepeated?, firstRepeated?_go_eq_some_iff, IsFirstRepeated]

namespace Schema

variable {schema : Schema} {name : String} {declarations : List Declaration} {error : SchemaError}

/-! ## Key attributes that are not declared -/

/-- The key attributes of a global index are stored names of declared attributes. -/
structure StoresKeysOf (schema : Schema) (index : GlobalIndex) : Prop where
  hash : schema.Stores index.hash
  range : ∀ range ∈ index.range, schema.Stores range

/--
The key attribute of an index is no stored name, but all key attributes before it are: those of the
global indexes come before those of the local ones, and a hash attribute before the range attribute.
-/
inductive IsFirstUndeclared (schema : Schema) : (index key : String) → Prop
  | globalHash {before after : List GlobalIndex} {index : GlobalIndex}
    (hindexes : schema.globalIndexes = before ++ index :: after)
    (hbefore : ∀ earlier ∈ before, schema.StoresKeysOf earlier)
    (hhash : ¬ schema.Stores index.hash) : IsFirstUndeclared schema index.name index.hash
  | globalRange {before after : List GlobalIndex} {index : GlobalIndex} {range : String}
    (hindexes : schema.globalIndexes = before ++ index :: after)
    (hbefore : ∀ earlier ∈ before, schema.StoresKeysOf earlier)
    (hhash : schema.Stores index.hash) (hmem : range ∈ index.range)
    (hrange : ¬ schema.Stores range) : IsFirstUndeclared schema index.name range
  | localRange {before after : List LocalIndex} {index : LocalIndex}
    (hglobal : ∀ index ∈ schema.globalIndexes, schema.StoresKeysOf index)
    (hindexes : schema.localIndexes = before ++ index :: after)
    (hbefore : ∀ earlier ∈ before, schema.Stores earlier.range)
    (hrange : ¬ schema.Stores index.range) : IsFirstUndeclared schema index.name index.range

/-- The key attribute is no stored name. -/
def isUndeclared (schema : Schema) (key : String × String) : Bool :=
  (schema.storedAttribute? key.2).isNone

theorem isUndeclared_iff {index key : String} :
    schema.isUndeclared (index, key) = true ↔ ¬ schema.Stores key := by
  rw [isUndeclared, Option.isNone_iff_eq_none, storedAttribute?_eq_none_iff]

theorem isUndeclared_eq_false_iff {index key : String} :
    schema.isUndeclared (index, key) = false ↔ schema.Stores key := by
  rw [← Bool.not_eq_true, isUndeclared_iff, not_not]

/-- The key attributes of a global index, with its name. -/
def keysOf (index : GlobalIndex) : List (String × String) :=
  (index.name, index.hash) :: index.range.toList.map fun range ↦ (index.name, range)

theorem find?_keysOf_eq_none_iff {index : GlobalIndex} :
    (keysOf index).find? schema.isUndeclared = none ↔ schema.StoresKeysOf index := by
  rw [List.find?_eq_none]
  simp only [isUndeclared_iff, not_not, keysOf, List.forall_mem_cons, List.forall_mem_map,
    Option.mem_toList]
  constructor
  · intro h
    exact ⟨h.1, h.2⟩
  · intro h
    exact ⟨h.hash, h.range⟩

theorem find?_keysOf_eq_some_iff {index : GlobalIndex} {key : String × String} :
    (keysOf index).find? schema.isUndeclared = some key ↔
      ¬ schema.Stores index.hash ∧ (index.name, index.hash) = key ∨
        schema.Stores index.hash ∧ ∃ range ∈ index.range, ¬ schema.Stores range ∧
          (index.name, range) = key := by
  rw [keysOf, List.find?_cons]
  by_cases hhash : schema.Stores index.hash
  · rw [isUndeclared_eq_false_iff.2 hhash]
    cases index.range with
    | none => simp [hhash]
    | some range =>
      by_cases hrange : schema.Stores range
      · simp [hhash, hrange, isUndeclared_eq_false_iff.2 hrange]
      · simp [hhash, hrange, isUndeclared_iff.2 hrange]
  · rw [isUndeclared_iff.2 hhash]
    simp [hhash]

theorem find?_indexKeys_eq_some_iff {index key : String} :
    schema.indexKeys.find? schema.isUndeclared = some (index, key) ↔
      IsFirstUndeclared schema index key := by
  rw [indexKeys, List.find?_append, List.find?_flatMap, Option.or_eq_some_iff,
    List.findSome?_eq_some_iff, List.findSome?_eq_none_iff, List.find?_map, Option.map_eq_some_iff]
  constructor
  · intro h
    rcases h with ⟨before, declared, after, hindexes, hfound, hbefore⟩ | ⟨hglobal, hlocal⟩
    · have hearlier : ∀ earlier ∈ before, schema.StoresKeysOf earlier := fun earlier hmem ↦
        find?_keysOf_eq_none_iff.1 (hbefore earlier hmem)
      rcases find?_keysOf_eq_some_iff.1 hfound with
        ⟨hhash, hkey⟩ | ⟨hhash, range, hmem, hrange, hkey⟩
      · cases hkey
        exact .globalHash hindexes hearlier hhash
      · cases hkey
        exact .globalRange hindexes hearlier hhash hmem hrange
    · obtain ⟨declared, hfound, hkey⟩ := hlocal
      obtain ⟨hrange, before, after, hindexes, hbefore⟩ := List.find?_eq_some_iff_append.1 hfound
      cases hkey
      refine .localRange (fun other hother ↦ ?_) hindexes (fun earlier hearlier ↦ ?_)
        (isUndeclared_iff.1 hrange)
      · exact find?_keysOf_eq_none_iff.1 (hglobal other hother)
      · have hdeclared := hbefore earlier hearlier
        rw [Bool.not_eq_true'] at hdeclared
        exact isUndeclared_eq_false_iff.1 hdeclared
  · intro h
    cases h with
    | globalHash hindexes hbefore hhash =>
      refine .inl ⟨_, _, _, hindexes, find?_keysOf_eq_some_iff.2 (.inl ⟨hhash, rfl⟩), ?_⟩
      intro earlier hearlier
      exact find?_keysOf_eq_none_iff.2 (hbefore earlier hearlier)
    | globalRange hindexes hbefore hhash hmem hrange =>
      refine .inl ⟨_, _, _, hindexes,
        find?_keysOf_eq_some_iff.2 (.inr ⟨hhash, _, hmem, hrange, rfl⟩), ?_⟩
      intro earlier hearlier
      exact find?_keysOf_eq_none_iff.2 (hbefore earlier hearlier)
    | localRange hglobal hindexes hbefore hrange =>
      refine .inr ⟨fun other hother ↦ find?_keysOf_eq_none_iff.2 (hglobal other hother), _,
        List.find?_eq_some_iff_append.2 ⟨isUndeclared_iff.2 hrange, _, _, hindexes, ?_⟩, rfl⟩
      intro earlier hearlier
      rw [Bool.not_eq_true']
      exact isUndeclared_eq_false_iff.2 (hbefore earlier hearlier)

/-- What is reported is the first key attribute that is not declared, if any attribute is. -/
theorem undeclaredIndexKey?_eq_some_iff {index key : String} :
    schema.undeclaredIndexKey? = some (index, key) ↔
      schema.attributes ≠ [] ∧ IsFirstUndeclared schema index key := by
  rw [← find?_indexKeys_eq_some_iff, undeclaredIndexKey?]
  by_cases hattributes : schema.attributes = []
  · simp [hattributes]
  · rw [if_neg (by simpa using hattributes), and_iff_right hattributes]
    rfl

/-! ## Faults of a schema -/

/-- What a schema is refused for. -/
inductive HasFault (schema : Schema) : SchemaError → Prop
  | property {property : String}
    (h : IsFirstRepeated (schema.attributes.map Attribute.property) property) :
    HasFault schema (.attributeAlreadyExists property)
  | index {name : String} (hproperties : (schema.attributes.map Attribute.property).Nodup)
    (h : IsFirstRepeated schema.indexNames name) :
    HasFault schema (.indexAlreadyExists name)
  | key {index key : String} (hproperties : (schema.attributes.map Attribute.property).Nodup)
    (hnames : schema.indexNames.Nodup) (hdeclared : schema.attributes ≠ [])
    (h : IsFirstUndeclared schema index key) :
    HasFault schema (.indexKeyAttributeMissing index key)

/-- No property and no name of an index is repeated, and the key attributes of the indexes are
declared if any attribute is. -/
structure IsFaultless (schema : Schema) : Prop where
  properties : (schema.attributes.map Attribute.property).Nodup
  names : schema.indexNames.Nodup
  keys : schema.attributes ≠ [] → schema.StoresIndexKeys

theorem undeclaredIndexKey?_eq_none_iff_imp :
    schema.undeclaredIndexKey? = none ↔ (schema.attributes ≠ [] → schema.StoresIndexKeys) := by
  by_cases hattributes : schema.attributes = []
  · simp [undeclaredIndexKey?, hattributes]
  · rw [undeclaredIndexKey?_eq_none_iff hattributes]
    exact ⟨fun h _ ↦ h, fun h ↦ h hattributes⟩

theorem validate_eq_ok_iff_isFaultless {accepted : Schema} :
    schema.validate = .ok accepted ↔ schema.IsFaultless ∧ schema = accepted := by
  rw [validate_eq_ok_iff, undeclaredIndexKey?_eq_none_iff_imp]
  constructor
  · intro h
    obtain ⟨hproperties, hnames, hkeys, hsame⟩ := h
    exact ⟨⟨hproperties, hnames, hkeys⟩, hsame⟩
  · intro h
    exact ⟨h.1.properties, h.1.names, h.1.keys, h.2⟩

theorem validate_eq_error_iff : schema.validate = .error error ↔ schema.HasFault error := by
  constructor
  · intro h
    rw [validate] at h
    split at h
    · rename_i property hproperty
      cases h
      exact .property (firstRepeated?_eq_some_iff.1 hproperty)
    · rename_i hproperties
      rw [firstRepeated?_eq_none_iff] at hproperties
      split at h
      · rename_i name hname
        cases h
        exact .index hproperties (firstRepeated?_eq_some_iff.1 hname)
      · rename_i hnames
        split at h
        · rename_i index key hkey
          cases h
          obtain ⟨hdeclared, hfirst⟩ := undeclaredIndexKey?_eq_some_iff.1 hkey
          exact .key hproperties (firstRepeated?_eq_none_iff.1 hnames) hdeclared hfirst
        · cases h
  · intro h
    cases h with
    | property hproperty =>
      rw [validate, firstRepeated?_eq_some_iff.2 hproperty]
      rfl
    | index hproperties hname =>
      rw [validate, firstRepeated?_eq_none_iff.2 hproperties, firstRepeated?_eq_some_iff.2 hname]
      rfl
    | key hproperties hnames hdeclared hfirst =>
      rw [validate, firstRepeated?_eq_none_iff.2 hproperties, firstRepeated?_eq_none_iff.2 hnames,
        undeclaredIndexKey?_eq_some_iff.2 ⟨hdeclared, hfirst⟩]
      rfl

/-! ## What comes of declarations -/

/-- The key of the table: the last hash attribute that is declared, and the last range attribute if
there is any. -/
structure IsLastKey (declarations : List Declaration) (key : KeyAttributes) : Prop where
  hash : (declarations.filterMap Declaration.hashKey?).getLast? = some key.hash
  range : (declarations.filterMap Declaration.rangeKey?).getLast? = key.range

/-- What declarations have to end with: an error, or the schema that they describe. -/
inductive IsOutcome (name : String) (declarations : List Declaration) :
    Except SchemaError Schema → Prop
  | missingHashKey (h : ∀ hash, Declaration.hashKey hash ∉ declarations) :
    IsOutcome name declarations (.error (.missingHashKey name))
  | refused {key : KeyAttributes} {error : SchemaError} (hkey : IsLastKey declarations key)
    (h : (described name key declarations).HasFault error) :
    IsOutcome name declarations (.error error)
  | accepted {key : KeyAttributes} (hkey : IsLastKey declarations key)
    (h : (described name key declarations).IsFaultless) :
    IsOutcome name declarations (.ok (described name key declarations))

theorem getLast?_hashKeys_eq_none_iff :
    (declarations.filterMap Declaration.hashKey?).getLast? = none ↔
      ∀ hash, Declaration.hashKey hash ∉ declarations := by
  rw [List.getLast?_eq_none_iff, List.filterMap_eq_nil_iff]
  constructor
  · intro h hash hmem
    cases h _ hmem
  · intro h declaration hmem
    cases declaration with
    | hashKey hash => exact absurd hmem (h hash)
    | _ => rfl

/-- Under the last key, the outcome is that of the checks. -/
theorem IsLastKey.ofDeclarations_eq {key : KeyAttributes} (h : IsLastKey declarations key) :
    ofDeclarations name declarations = (described name key declarations).validate := by
  rw [Schema.ofDeclarations_eq, h.hash, h.range]

theorem ofDeclarations_eq_iff_isOutcome {outcome : Except SchemaError Schema} :
    ofDeclarations name declarations = outcome ↔ IsOutcome name declarations outcome := by
  constructor
  · rintro rfl
    cases hhash : (declarations.filterMap Declaration.hashKey?).getLast? with
    | none =>
      rw [ofDeclarations_eq, hhash]
      exact .missingHashKey (getLast?_hashKeys_eq_none_iff.1 hhash)
    | some hash =>
      have hkey : IsLastKey declarations
        ⟨hash, (declarations.filterMap Declaration.rangeKey?).getLast?⟩ := ⟨hhash, rfl⟩
      rw [hkey.ofDeclarations_eq]
      cases hvalidate : (described name _ declarations).validate with
      | error error => exact .refused hkey (validate_eq_error_iff.1 hvalidate)
      | ok schema =>
        obtain ⟨hfaultless, rfl⟩ := validate_eq_ok_iff_isFaultless.1 hvalidate
        exact .accepted hkey hfaultless
  · intro h
    cases h with
    | missingHashKey hnone =>
      rw [ofDeclarations_eq, getLast?_hashKeys_eq_none_iff.2 hnone]
      rfl
    | refused hkey hfault =>
      rw [hkey.ofDeclarations_eq]
      exact validate_eq_error_iff.2 hfault
    | accepted hkey hfaultless =>
      rw [hkey.ofDeclarations_eq]
      exact validate_eq_ok_iff_isFaultless.2 ⟨hfaultless, rfl⟩

/--
What comes of declarations is determined: the first fault in the order of the checks, or the schema
that they describe. In that, the name of a declared index leads to the index itself.
-/
theorem ofDeclarations_isOutcome (name : String) (declarations : List Declaration) :
    (∀ outcome, ofDeclarations name declarations = outcome ↔
      IsOutcome name declarations outcome) ∧
    ∀ schema, ofDeclarations name declarations = .ok schema →
      (∀ index, .globalIndex index ∈ declarations →
        Index.Descriptor.named schema index.name = .ok (.global index)) ∧
      ∀ index, .localIndex index ∈ declarations →
        Index.Descriptor.named schema index.name = .ok (.localIndex schema index) := by
  refine ⟨fun outcome ↦ ofDeclarations_eq_iff_isOutcome, ?_⟩
  intro schema hschema
  have hnames := IsAccepted.nodup_indexNames ⟨name, declarations, hschema⟩
  obtain ⟨-, -, hdescribed, -⟩ := ofDeclarations_eq_ok_iff.1 hschema
  constructor
  · intro index hindex
    apply Index.Descriptor.named_global hnames
    rw [← hdescribed]
    exact List.mem_filterMap.2 ⟨_, hindex, rfl⟩
  · intro index hindex
    apply Index.Descriptor.named_localIndex hnames
    rw [← hdescribed]
    exact List.mem_filterMap.2 ⟨_, hindex, rfl⟩

/-- A local index with the name of a global one and a range attribute that is not declared. -/
def colliding : LocalIndex := ⟨"totals", "due", .all⟩

theorem ofDeclarations_isOutcome_example :
    IsOutcome "orders" (misspelt ++ [.localIndex colliding])
        (.error (.indexAlreadyExists "totals")) ∧
      ofDeclarations "orders" misspelt = .ok misspeltSchema ∧
      Index.Descriptor.named misspeltSchema "totals" =
        .ok ⟨.global, some "totals", "customer", some "sum"⟩ ∧
      Index.Descriptor.named misspeltSchema "sums" =
        .ok ⟨.localIndex, some "sums", "custmer", some "sum"⟩ := by
  have hcolliding := (ofDeclarations_isOutcome "orders" (misspelt ++ [.localIndex colliding])).1
  have hnamed := (ofDeclarations_isOutcome "orders" misspelt).2 _ ofDeclarations_misspelt
  have hglobal : .globalIndex ⟨"totals", "customer", some "sum", .keysOnly⟩ ∈ misspelt := by decide
  have hlocal : .localIndex ⟨"sums", "sum", .all⟩ ∈ misspelt := by decide
  exact ⟨(hcolliding _).1 rfl, ofDeclarations_misspelt, hnamed.1 _ hglobal, hnamed.2 _ hlocal⟩

end Schema

end IndexedSearch
