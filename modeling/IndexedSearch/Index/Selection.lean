import IndexedSearch.Filter.Tree
import IndexedSearch.Index.Descriptor

/-!
# Choosing an index

A filter can use an index if it has an unconditional condition on the hash attribute and, where the
index has a range attribute, on that too. A single condition that keys do not allow, such as
inequality, takes its attribute out of the choice. The primary key is tried first, then the global
and then the local indexes in order of declaration, but only those that carry all attributes.
-/

namespace IndexedSearch.Index

open IndexedSearch.Filter (Clause Term)

/-- The conditions on the key attributes of an index. -/
structure KeyTerms where
  hash : Option Term
  range : Option Term

namespace KeyTerms

/-- No condition on a key attribute. -/
def none : KeyTerms := ⟨.none, .none⟩

/-- The conditions are enough to read through the index. -/
def suffice (terms : KeyTerms) (descriptor : Descriptor) : Bool :=
  terms.hash.isSome && (descriptor.range.isNone || terms.range.isSome)

end KeyTerms

/-- The condition is on an attribute as a whole, and the attribute is stored under the name. -/
def isOnAttribute (schema : Schema) (name : String) (clause : Clause) : Bool :=
  clause.path.isTopLevel && schema.physicalName clause.path.root = name

/-- The first of the conditions on an attribute, if keys allow all of them. -/
def keyTerm? (schema : Schema) (terms : List Term) (name : String) : Option Term :=
  let onAttribute := terms.filter fun term ↦ isOnAttribute schema name term.clause
  if onAttribute.all fun term ↦ term.clause.condition.isKeyEligible then onAttribute.head?
  else none

/-- The conditions of a filter on the key attributes of an index. -/
def keyTerms (schema : Schema) (tree : Filter.Tree Clause) (descriptor : Descriptor) : KeyTerms :=
  { hash := keyTerm? schema tree.terms descriptor.hash
    range := descriptor.range.bind fun range ↦ keyTerm? schema tree.terms range }

/-- The indexes to try, in order. -/
def candidates (schema : Schema) : List Descriptor :=
  Descriptor.primary schema ::
    ((schema.globalIndexes.filter fun index ↦ index.projection.isAll).map Descriptor.global ++
      (schema.localIndexes.filter fun index ↦ index.projection.isAll).map
        (Descriptor.localIndex schema))

/-- An index and the conditions on its key attributes. -/
structure Selection where
  descriptor : Descriptor
  keys : KeyTerms

/-- The first index that the filter can use. Without one, the table has to be scanned. -/
def select? (schema : Schema) (tree : Filter.Tree Clause) : Option Selection :=
  (candidates schema).findSome? fun descriptor ↦
    let keys := keyTerms schema tree descriptor
    if keys.suffice descriptor then some ⟨descriptor, keys⟩ else none

/-- How the index of a search is chosen. -/
inductive Choice where
  | automatic
  | named (name : String)
  | given (descriptor : Descriptor)
deriving DecidableEq

/-- The index of a request, if it has one, and the conditions of the filter on its key. -/
structure Resolution where
  descriptor : Option Descriptor
  keys : KeyTerms

/-- Follows a choice. An index chosen by the caller is taken whether or not the filter suits it. -/
def Choice.resolve (schema : Schema) (tree : Filter.Tree Clause) :
    Choice → Except SchemaError Resolution
  | automatic =>
    match select? schema tree with
    | some selection => return ⟨selection.descriptor, selection.keys⟩
    | none => return ⟨none, .none⟩
  | named name => do
    let descriptor ← Descriptor.named schema name
    return ⟨descriptor, keyTerms schema tree descriptor⟩
  | given descriptor => return ⟨descriptor, keyTerms schema tree descriptor⟩

end IndexedSearch.Index
