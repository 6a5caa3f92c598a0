import IndexedSearch.Catalog.Declaration

/-!
# Index descriptors

A request is served by the primary key of its table or by one of the secondary indexes. A descriptor
says which, and by what hash and range attributes the index is ordered.
-/

namespace IndexedSearch.Index

/-- What a descriptor describes. -/
inductive Kind where
  | primary
  | global
  | localIndex
deriving DecidableEq

namespace Kind

/-- The name in serialized forms. -/
def name : Kind → String
  | primary => "Primary"
  | global => "Global"
  | localIndex => "Local"

/-- The kind of a name. -/
def ofName? : String → Option Kind
  | "Primary" => some primary
  | "Global" => some global
  | "Local" => some localIndex
  | _ => none

theorem ofName?_name (kind : Kind) : ofName? kind.name = some kind := by
  cases kind <;> rfl

def toJson (kind : Kind) : Json := .string kind.name

def ofJson? (json : Json) : Option Kind := json.variant?.bind ofName?

@[simp] theorem ofJson?_toJson (kind : Kind) : ofJson? kind.toJson = some kind :=
  ofName?_name kind

end Kind

/-- The attributes by which a request can be served. -/
structure Descriptor where
  kind : Kind
  name : Option String
  hash : String
  range : Option String
deriving DecidableEq

namespace Descriptor

/-- The primary key of a table. -/
def primary (schema : Schema) : Descriptor :=
  ⟨.primary, none, schema.key.hash, schema.key.range⟩

/-- A global index. -/
def global (index : GlobalIndex) : Descriptor :=
  ⟨.global, some index.name, index.hash, index.range⟩

/-- A local index, under the hash attribute of its table. -/
def localIndex (schema : Schema) (index : LocalIndex) : Descriptor :=
  ⟨.localIndex, some index.name, schema.key.hash, some index.range⟩

/-- The name to send with a request. The primary key has none, whatever the descriptor says. -/
def sentName (descriptor : Descriptor) : Option String :=
  match descriptor.kind with
  | .primary => none
  | .global | .localIndex => descriptor.name

/-- The index of a name, a global one before a local one. -/
def named (schema : Schema) (name : String) : Except SchemaError Descriptor :=
  match schema.globalIndex? name with
  | some index => return global index
  | none =>
    match schema.localIndex? name with
    | some index => return localIndex schema index
    | none => throw (.indexNotFound name)

/-- The serialized form; a name or range attribute that is absent is written as null. -/
def toJson (descriptor : Descriptor) : Json :=
  .object [("kind", descriptor.kind.toJson), ("name", .ofString? descriptor.name),
    ("hash", .string descriptor.hash), ("range", .ofString? descriptor.range)]

def ofJson? (json : Json) : Option Descriptor := do
  let fields ← json.fields?
  return {
    kind := ← Json.required? fields "kind" Kind.ofJson?
    name := ← Json.optional? fields "name" Json.string?
    hash := ← Json.required? fields "hash" Json.string?
    range := ← Json.optional? fields "range" Json.string? }

end Descriptor

end IndexedSearch.Index
