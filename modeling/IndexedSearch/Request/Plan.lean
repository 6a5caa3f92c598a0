import IndexedSearch.Expression.Level
import IndexedSearch.Index.Selection
import IndexedSearch.Request.Basic
import IndexedSearch.SearchError

/-!
# From a filter to a request

A plan says how a filter is served: the index, the atoms of the key condition, what is left of the
filter, and the paths to project. The request of a plan writes these as expressions, one after
another, so that placeholders are numbered through all of them. Making a plan is where every
mistake of a search is found that does not need the store.
-/

namespace IndexedSearch

open Expression (Atom Counter Level Numbered Resolved)
open IndexedSearch.Filter (Clause)

/-- The order in which an index is read. -/
inductive Order where
  | ascending
  | descending
deriving DecidableEq

/-- What a search asks for beside its filter. -/
structure Options where
  index : Index.Choice
  limit : Option UInt32
  consistentRead : Bool
  order : Option Order
  projection : List String
  countOnly : Bool
  startKey : Option Wire.Key

/-- How a filter is served. -/
structure Plan where
  index : Option Index.Descriptor
  key : Option (Level Resolved)
  filter : Option (Level Resolved)
  projection : List (List String)

namespace Plan

/-- The conditions that make up the key condition: none without one on the hash attribute. -/
def keyConditions (keys : Index.KeyTerms) : List Filter.Term :=
  match keys.hash with
  | none => []
  | some hash => hash :: keys.range.toList

/-- The paths of a projection, each once; an empty list for counting. -/
def projectionPaths (schema : Schema) (options : Options) :
    Except UsageError (List (List String)) :=
  if options.countOnly then return []
  else do
    let paths ← options.projection.mapM Filter.Path.parse
    return (paths.map (Expression.physicalPath schema)).eraseDups

/-- The plan for a filter. -/
def make (schema : Schema) (tree : Filter.Tree Clause) (options : Options) :
    Except SearchError Plan := do
  if let some error := tree.operandError? then throw (.usage error)
  let resolution ← (options.index.resolve schema tree).mapError SearchError.schema
  let terms := keyConditions resolution.keys
  if terms.isEmpty && options.order.isSome then throw (.usage .scanOrdering)
  let projection ← (projectionPaths schema options).mapError SearchError.usage
  return {
    index := resolution.descriptor
    key := Level.conjunction? (terms.map fun term ↦ Resolved.ofClause schema term.clause)
    filter := Level.ofTree? <|
      (tree.without (terms.map Filter.Term.position)).mapLeaves (Resolved.ofClause schema)
    projection }

/-! ## The request of a plan -/

/-- The atoms of the key condition. -/
def keyAtoms (plan : Plan) : List Resolved := (plan.key.map Level.atoms).getD []

/-- The atoms of the filter expression. -/
def filterAtoms (plan : Plan) : List Resolved := (plan.filter.map Level.atoms).getD []

/-- All atoms, in the order in which they are numbered. -/
def atoms (plan : Plan) : List Resolved := plan.keyAtoms ++ plan.filterAtoms

/-- The attribute names, in the order of their placeholders. -/
def names (plan : Plan) : List String :=
  plan.atoms.flatMap Atom.path ++ plan.projection.flatten

/-- The operands, in the order of their placeholders. -/
def values (plan : Plan) : List Wire.Value := plan.atoms.flatMap Atom.operands

/-- The key condition, numbered from the beginning. -/
def numberedKey (plan : Plan) : Option (Level Numbered) :=
  plan.key.map (Level.number Counter.start)

/-- The filter expression, numbered behind the key condition. -/
def numberedFilter (plan : Plan) : Option (Level Numbered) :=
  plan.filter.map (Level.number (Counter.start.after plan.keyAtoms))

/-- The paths of the projection, numbered behind both expressions. -/
def numberedProjection (plan : Plan) : List (List Nat) :=
  Expression.numberPaths (Counter.start.after plan.atoms).name plan.projection

/-- The projection expression, if there is anything to project. -/
def projectionText? (plan : Plan) : Option String :=
  if plan.projection.isEmpty then none
  else some (", ".intercalate (plan.numberedProjection.map Expression.pathText))

/-- The entries of a table of placeholders. -/
def placeholderTable {α : Type} (placeholder : Nat → String) (entries : List α) : NameMap α :=
  NameMap.ofList (entries.zipIdx.map fun (entry, i) ↦ (placeholder i, entry))

/-- The request that a plan describes. -/
def request (plan : Plan) (schema : Schema) (options : Options) : Request :=
  { table := schema.name
    index := plan.index.bind Index.Descriptor.sentName
    consistentRead := if options.consistentRead then some true else none
    keyCondition := plan.numberedKey.map Level.text
    filter := plan.numberedFilter.map Level.text
    names := placeholderTable Expression.namePlaceholder plan.names
    values := placeholderTable Expression.valuePlaceholder plan.values
    projection := plan.projectionText?
    select :=
      if options.countOnly then some .count
      else plan.projectionText?.map fun _ ↦ .specificAttributes
    limit := options.limit
    startKey := options.startKey
    forward := options.order.map fun order ↦ order = .ascending }

end Plan

/-- The request for a filter, or what is wrong with it. -/
def Request.forFilter (schema : Schema) (tree : Filter.Tree Clause) (options : Options) :
    Except SearchError Request :=
  (Plan.make schema tree options).map fun plan ↦ plan.request schema options

end IndexedSearch
