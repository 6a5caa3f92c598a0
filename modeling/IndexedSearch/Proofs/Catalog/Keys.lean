import IndexedSearch.Proofs.Catalog.Stored

/-!
# Key attributes of a catalog

As soon as some attribute is declared, every key attribute of an index has to be the stored name of
a declared one. The key attributes of the table itself are taken as they come: whatever hash or
range attribute is declared last, the schema is accepted with it.
-/

namespace IndexedSearch

namespace Declaration

/-- The hash attribute that is declared. -/
def hashKey? : Declaration → Option String
  | hashKey name => some name
  | _ => none

/-- The range attribute that is declared. -/
def rangeKey? : Declaration → Option String
  | rangeKey name => some name
  | _ => none

/-- The global index that is declared. -/
def globalIndex? : Declaration → Option GlobalIndex
  | globalIndex index => some index
  | _ => none

/-- The local index that is declared. -/
def localIndex? : Declaration → Option LocalIndex
  | localIndex index => some index
  | _ => none

/-- The attribute that is declared. -/
def property? : Declaration → Option Attribute
  | property declared => some declared
  | _ => none

theorem property?_eq_some_iff {declaration : Declaration} {declared : Attribute} :
    declaration.property? = some declared ↔ declaration = property declared := by
  cases declaration <;> simp [property?]

end Declaration

namespace Schema

variable {schema : Schema} {name : String} {declarations : List Declaration} {declared : Attribute}

/-! ## What declarations describe -/

/-- The schema of declarations, under a key of the table. -/
def described (name : String) (key : KeyAttributes) (declarations : List Declaration) : Schema :=
  { name
    key
    globalIndexes := declarations.filterMap Declaration.globalIndex?
    localIndexes := declarations.filterMap Declaration.localIndex?
    attributes := declarations.filterMap Declaration.property? }

theorem ofDeclarations_eq (name : String) (declarations : List Declaration) :
    ofDeclarations name declarations =
      match (declarations.filterMap Declaration.hashKey?).getLast? with
      | none => throw (.missingHashKey name)
      | some hash =>
        let range := (declarations.filterMap Declaration.rangeKey?).getLast?
        validate (described name ⟨hash, range⟩ declarations) := rfl

/-- Accepted declarations have a hash attribute, and what they describe passes the checks. -/
theorem ofDeclarations_eq_ok_iff :
    ofDeclarations name declarations = .ok schema ↔
      (declarations.filterMap Declaration.hashKey?).getLast? = some schema.key.hash ∧
      (declarations.filterMap Declaration.rangeKey?).getLast? = schema.key.range ∧
      described name schema.key declarations = schema ∧ schema.validate = .ok schema := by
  rw [ofDeclarations_eq]
  constructor
  · intro h
    split at h
    · cases h
    · rename_i hash hhash
      obtain ⟨hproperties, hnames, hkeys, rfl⟩ := validate_eq_ok_iff.1 h
      exact ⟨hhash, rfl, rfl, h⟩
  · intro h
    obtain ⟨hhash, hrange, hdescribed, hvalid⟩ := h
    rw [hhash, hrange]
    exact (congrArg validate hdescribed).trans hvalid

theorem mem_attributes_iff (h : ofDeclarations name declarations = .ok schema) :
    declared ∈ schema.attributes ↔ .property declared ∈ declarations := by
  obtain ⟨-, -, hdescribed, -⟩ := ofDeclarations_eq_ok_iff.1 h
  rw [← hdescribed, described, List.mem_filterMap]
  simp only [Declaration.property?_eq_some_iff, exists_eq_right]

/-! ## The keys of indexes -/

/-- Every key attribute of a secondary index is the stored name of a declared attribute. -/
structure StoresIndexKeys (schema : Schema) : Prop where
  globalHash : ∀ index ∈ schema.globalIndexes, schema.Stores index.hash
  globalRange : ∀ index ∈ schema.globalIndexes, ∀ range ∈ index.range, schema.Stores range
  localRange : ∀ index ∈ schema.localIndexes, schema.Stores index.range

theorem storesIndexKeys_iff :
    schema.StoresIndexKeys ↔ ∀ key ∈ schema.indexKeys, schema.Stores key.2 := by
  constructor
  · intro h key hkey
    rcases List.mem_append.1 hkey with hglobal | hlocal
    · obtain ⟨index, hindex, hkey⟩ := List.mem_flatMap.1 hglobal
      rcases List.mem_cons.1 hkey with rfl | hkey
      · exact h.globalHash index hindex
      · obtain ⟨range, hrange, rfl⟩ := List.mem_map.1 hkey
        exact h.globalRange index hindex range (Option.mem_toList.1 hrange)
    · obtain ⟨index, hindex, rfl⟩ := List.mem_map.1 hlocal
      exact h.localRange index hindex
  · intro h
    constructor
    · intro index hindex
      apply h (index.name, index.hash)
      exact List.mem_append_left _ (List.mem_flatMap.2 ⟨index, hindex, List.mem_cons_self⟩)
    · intro index hindex range hrange
      apply h (index.name, range)
      have hmem := List.mem_map_of_mem (f := fun range ↦ (index.name, range))
        (Option.mem_toList.2 hrange)
      exact List.mem_append_left _ (List.mem_flatMap.2 ⟨index, hindex, List.mem_cons_of_mem _ hmem⟩)
    · intro index hindex
      apply h (index.name, index.range)
      exact List.mem_append_right _ (List.mem_map_of_mem hindex)

/-- With attributes, the check of the keys is that of all key attributes of indexes. -/
theorem undeclaredIndexKey?_eq_none_iff (h : schema.attributes ≠ []) :
    schema.undeclaredIndexKey? = none ↔ schema.StoresIndexKeys := by
  rw [undeclaredIndexKey?, if_neg (by simpa using h), List.find?_eq_none, storesIndexKeys_iff]
  apply forall₂_congr
  intro key _
  rw [Option.isNone_iff_eq_none, storedAttribute?_eq_none_iff, not_not]

/-! ## The key of the table -/

theorem validate_of_key (key : KeyAttributes) (h : schema.validate = .ok schema) :
    { schema with key }.validate = .ok { schema with key } := by
  obtain ⟨hproperties, hnames, hkeys, -⟩ := validate_eq_ok_iff.1 h
  exact validate_eq_ok_iff.2 ⟨hproperties, hnames, hkeys, rfl⟩

/-- Declarations of the same indexes and attributes under another key are accepted, too. -/
theorem ofDeclarations_of_key {others : List Declaration} {key : KeyAttributes}
    (h : ofDeclarations name declarations = .ok schema)
    (hhash : (others.filterMap Declaration.hashKey?).getLast? = some key.hash)
    (hrange : (others.filterMap Declaration.rangeKey?).getLast? = key.range)
    (hsame : described name key others = { described name schema.key declarations with key }) :
    ofDeclarations name others = .ok { schema with key } := by
  obtain ⟨-, -, hdescribed, hvalid⟩ := ofDeclarations_eq_ok_iff.1 h
  rw [hdescribed] at hsame
  exact ofDeclarations_eq_ok_iff.2 ⟨hhash, hrange, hsame, validate_of_key key hvalid⟩

/--
In an accepted schema with attributes, the key attributes of all indexes are stored names of
declared attributes. The key attributes of the table are not looked at: any others may be declared
behind.
-/
theorem storesIndexKeys_of_ofDeclarations (h : ofDeclarations name declarations = .ok schema)
    (hdeclared : ∃ declared, Declaration.property declared ∈ declarations) :
    schema.StoresIndexKeys ∧
      (∀ hash, ofDeclarations name (declarations ++ [.hashKey hash]) =
        .ok { schema with key.hash := hash }) ∧
      ∀ range, ofDeclarations name (declarations ++ [.rangeKey range]) =
        .ok { schema with key.range := some range } := by
  obtain ⟨hhash, hrange, -, hvalid⟩ := ofDeclarations_eq_ok_iff.1 h
  refine ⟨?_, ?_, ?_⟩
  · obtain ⟨declared, hdeclared⟩ := hdeclared
    have hattributes := List.ne_nil_of_mem ((mem_attributes_iff h).2 hdeclared)
    obtain ⟨-, -, hkeys, -⟩ := validate_eq_ok_iff.1 hvalid
    exact (undeclaredIndexKey?_eq_none_iff hattributes).1 hkeys
  · intro hash
    apply ofDeclarations_of_key h
    · simp [Declaration.hashKey?]
    · simpa [Declaration.rangeKey?] using hrange
    · simp [described, Declaration.globalIndex?, Declaration.localIndex?, Declaration.property?]
  · intro range
    apply ofDeclarations_of_key h
    · simpa [Declaration.hashKey?] using hhash
    · simp [Declaration.rangeKey?]
    · simp [described, Declaration.globalIndex?, Declaration.localIndex?, Declaration.property?]

/-! ## A key attribute of a table that is no attribute -/

/-- The hash attribute of the table is misspelt. -/
def misspelt : List Declaration :=
  [.hashKey "custmer",
    .property ⟨"customer", none, .string, true⟩,
    .globalIndex ⟨"totals", "customer", some "sum", .keysOnly⟩,
    .localIndex ⟨"sums", "sum", .all⟩,
    .property ⟨"total", some "sum", .number, false⟩]

def misspeltSchema : Schema :=
  { name := "orders"
    key := ⟨"custmer", none⟩
    globalIndexes := [⟨"totals", "customer", some "sum", .keysOnly⟩]
    localIndexes := [⟨"sums", "sum", .all⟩]
    attributes := [⟨"customer", none, .string, true⟩, ⟨"total", some "sum", .number, false⟩] }

theorem ofDeclarations_misspelt : ofDeclarations "orders" misspelt = .ok misspeltSchema := rfl

theorem exists_mem_misspelt : ∃ declared, Declaration.property declared ∈ misspelt :=
  ⟨⟨"customer", none, .string, true⟩, List.mem_cons_of_mem _ List.mem_cons_self⟩

theorem storesIndexKeys_example :
    ofDeclarations "orders" misspelt = .ok misspeltSchema ∧
      (∃ declared, Declaration.property declared ∈ misspelt) ∧
      misspeltSchema.StoresIndexKeys ∧
      ofDeclarations "orders" (misspelt ++ [.hashKey "customer"]) =
        .ok { misspeltSchema with key := ⟨"customer", none⟩ } ∧
      ofDeclarations "orders" (misspelt ++ [.rangeKey "placd"]) =
        .ok { misspeltSchema with key := ⟨"custmer", some "placd"⟩ } := by
  have hall := storesIndexKeys_of_ofDeclarations ofDeclarations_misspelt exists_mem_misspelt
  exact ⟨ofDeclarations_misspelt, exists_mem_misspelt, hall.1, hall.2.1 "customer",
    hall.2.2 "placd"⟩

/-- The misspelt hash attribute is accepted, although no declared attribute is stored under it. -/
theorem not_stores_hash_misspelt :
    ofDeclarations "orders" misspelt = .ok misspeltSchema ∧
      (∃ declared, Declaration.property declared ∈ misspelt) ∧
      ¬ misspeltSchema.Stores misspeltSchema.key.hash :=
  ⟨ofDeclarations_misspelt, exists_mem_misspelt, storedAttribute?_eq_none_iff.1 rfl⟩

end Schema

end IndexedSearch
