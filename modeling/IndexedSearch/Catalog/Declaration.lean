import IndexedSearch.Catalog.Schema

/-!
# Declaring a schema

A schema is put together from declarations in any order. `Schema.ofDeclarations` accepts them if the
table has a hash attribute, no property and no index is declared twice, and, as soon as some
attribute is declared, every key attribute of an index is the stored name of one.
-/

namespace IndexedSearch

/-- What can be wrong with a catalog, and with the name of an index looked up in it. -/
inductive SchemaError where
  | indexNotFound (name : String)
  | indexAlreadyExists (name : String)
  | indexKeyAttributeMissing (index key : String)
  | attributeAlreadyExists (property : String)
  | missingHashKey (table : String)
deriving DecidableEq

/-- The wording of an error. -/
def SchemaError.message : SchemaError → String
  | indexNotFound name => "index not found: " ++ name
  | indexAlreadyExists name => "index already exists: " ++ name
  | indexKeyAttributeMissing index key =>
    "index '" ++ index ++ "' references missing attribute '" ++ key ++ "'"
  | attributeAlreadyExists property => "attribute already declared: " ++ property
  | missingHashKey table => "table '" ++ table ++ "' has no hash key"

/-- One declaration about a table. -/
inductive Declaration where
  | hashKey (name : String)
  | rangeKey (name : String)
  | globalIndex (index : GlobalIndex)
  | localIndex (index : LocalIndex)
  | property (declared : Attribute)
deriving DecidableEq

/-- The first member that repeats an earlier one. -/
def firstRepeated? : (names : List String) → Option String :=
  go []
where
  go (seen : List String) : List String → Option String
    | [] => none
    | name :: rest => if name ∈ seen then some name else go (name :: seen) rest

namespace Schema

/-- The names of all indexes, the global ones first. -/
def indexNames (schema : Schema) : List String :=
  schema.globalIndexes.map GlobalIndex.name ++ schema.localIndexes.map LocalIndex.name

/-- The key attributes of all indexes, each with the name of its index. -/
def indexKeys (schema : Schema) : List (String × String) :=
  schema.globalIndexes.flatMap (fun index ↦
    (index.name, index.hash) :: index.range.toList.map fun range ↦ (index.name, range)) ++
  schema.localIndexes.map fun index ↦ (index.name, index.range)

/-- The first key attribute of an index that no declared attribute is stored under. -/
def undeclaredIndexKey? (schema : Schema) : Option (String × String) :=
  if schema.attributes.isEmpty then none
  else schema.indexKeys.find? fun key ↦ (schema.storedAttribute? key.2).isNone

/-- Checks the names of a schema: properties, indexes and the key attributes of indexes. -/
def validate (schema : Schema) : Except SchemaError Schema :=
  match firstRepeated? (schema.attributes.map Attribute.property) with
  | some property => throw (.attributeAlreadyExists property)
  | none =>
    match firstRepeated? schema.indexNames with
    | some name => throw (.indexAlreadyExists name)
    | none =>
      match schema.undeclaredIndexKey? with
      | some (index, key) => throw (.indexKeyAttributeMissing index key)
      | none => return schema

/-- The schema that the declarations describe. The last key declarations count. -/
def ofDeclarations (name : String) (declarations : List Declaration) :
    Except SchemaError Schema :=
  let hashes := declarations.filterMap fun
    | .hashKey hash => some hash
    | _ => none
  let ranges := declarations.filterMap fun
    | .rangeKey range => some range
    | _ => none
  match hashes.getLast? with
  | none => throw (.missingHashKey name)
  | some hash =>
    validate {
      name
      key := ⟨hash, ranges.getLast?⟩
      globalIndexes := declarations.filterMap fun
        | .globalIndex index => some index
        | _ => none
      localIndexes := declarations.filterMap fun
        | .localIndex index => some index
        | _ => none
      attributes := declarations.filterMap fun
        | .property declared => some declared
        | _ => none }

end Schema

end IndexedSearch
