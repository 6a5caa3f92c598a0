import IndexedSearch.Proofs.Index.Naming
import IndexedSearch.Proofs.Request.Making

/-!
# Requests and who chooses the index

Of its schema, a request shows the name of the table, the stored names of attributes and the index
that was found for the filter; what else there is in a catalog, and how the index was chosen, does
not matter. A caller who gives the index that would have been selected, or names it in an accepted
schema, gets the same request as without the choice, or the same error.
-/

namespace IndexedSearch

open Expression (Resolved)
open IndexedSearch.Filter (Clause)

variable {schema other : Schema} {tree : Filter.Tree Clause} {options : Options}

theorem Expression.physicalPath_congr (h : schema.attributes = other.attributes) :
    physicalPath schema = physicalPath other := by
  funext path
  rw [physicalPath, Schema.physicalName_congr h]
  rfl

theorem Expression.Resolved.ofClause_congr (h : schema.attributes = other.attributes) :
    Resolved.ofClause schema = Resolved.ofClause other := by
  funext clause
  rw [ofClause, physicalPath_congr h]
  rfl

theorem Plan.projectionPaths_congr {others : Options}
    (hattributes : schema.attributes = other.attributes)
    (hprojection : options.projection = others.projection)
    (hcount : options.countOnly = others.countOnly) :
    projectionPaths schema options = projectionPaths other others := by
  rw [projectionPaths, hprojection, hcount, Expression.physicalPath_congr hattributes]
  rfl

/-- With the same attributes, the same index and paths to project make for the same plan. -/
theorem Plan.make_congr {others : Options} (hattributes : schema.attributes = other.attributes)
    (hresolve : options.index.resolve schema tree = others.index.resolve other tree)
    (horder : options.order = others.order)
    (hpaths : projectionPaths schema options = projectionPaths other others) :
    make schema tree options = make other tree others := by
  rw [make, hresolve, horder, hpaths, Resolved.ofClause_congr hattributes]
  rfl

namespace Request

/-- Choices that lead to the same index in schemas with the same attributes make for the same
request of the same table. -/
theorem forFilter_congr {choice otherChoice : Index.Choice} (hname : schema.name = other.name)
    (hattributes : schema.attributes = other.attributes)
    (hresolve : choice.resolve schema tree = otherChoice.resolve other tree) (options : Options) :
    forFilter schema tree { options with index := choice } =
      forFilter other tree { options with index := otherChoice } := by
  have hplan : Plan.make schema tree { options with index := choice } =
      Plan.make other tree { options with index := otherChoice } :=
    Plan.make_congr hattributes hresolve rfl (Plan.projectionPaths_congr hattributes rfl rfl)
  have hrequest (plan : Plan) : plan.request schema { options with index := choice } =
      plan.request other { options with index := otherChoice } := by
    rw [Plan.request, hname]
    rfl
  rw [forFilter, hplan]
  simp only [hrequest]
  rfl

/-- With an automatic choice, the options are those with the choice left open. -/
theorem forFilter_automatic_congr {choice : Index.Choice} (hautomatic : options.index = .automatic)
    (hresolve : choice.resolve schema tree = Index.Choice.automatic.resolve schema tree) :
    forFilter schema tree { options with index := choice } = forFilter schema tree options := by
  rw [forFilter_congr rfl rfl hresolve, ← hautomatic]

/--
Where an index is selected, giving it has the outcome of leaving the choice open. So has naming it,
if it is a secondary index of an accepted schema.
-/
theorem forFilter_explicit {selection : Index.Selection} (hautomatic : options.index = .automatic)
    (hselect : Index.select? schema tree = some selection) :
    forFilter schema tree { options with index := .given selection.descriptor } =
        forFilter schema tree options ∧
      (schema.IsAccepted → selection.descriptor.kind ≠ .primary →
        ∀ name ∈ selection.descriptor.name,
          forFilter schema tree { options with index := .named name } =
            forFilter schema tree options) := by
  constructor
  · exact forFilter_automatic_congr hautomatic (Index.resolve_given_of_select? hselect)
  · intro haccepted hkind name hname
    exact forFilter_automatic_congr hautomatic
      (Index.resolve_named_of_select? haccepted hselect hkind hname)

end Request

/-! ## An example -/

namespace Example

/-- A table with secondary indexes, the first of which carries keys only. -/
def declarations : List Declaration :=
  [.hashKey "customer", .rangeKey "placed",
    .globalIndex ⟨"mails", "mail", none, .keysOnly⟩,
    .globalIndex ⟨"totals", "status", some "total", .all⟩,
    .localIndex ⟨"payments", "paid", .all⟩,
    .property ⟨"mail", none, .string, false⟩,
    .property ⟨"state", some "status", .string, true⟩,
    .property ⟨"total", none, .number, false⟩,
    .property ⟨"paid", none, .boolean, false⟩]

def catalog : Schema :=
  (Schema.ofDeclarations "orders" declarations).toOption.getD Example.schema

theorem isAccepted_catalog : catalog.IsAccepted := ⟨"orders", declarations, rfl⟩

/-- Conditions for which the index with keys only would do, and the one on stored names does. -/
def stateSteps : List Filter.Step :=
  [.filterAll [("mail", .equality (.string "m1")), ("state", .equality (.string "open"))],
    .filter "total" (.gt (.bool true))]

def stateTree : Filter.Tree Clause := (Filter.Tree.ofSteps stateSteps).toOption.getD []

def stateDescriptor : Index.Descriptor := ⟨.global, some "totals", "status", some "total"⟩

def stateSelection : Index.Selection :=
  ⟨stateDescriptor, Index.keyTerms catalog stateTree stateDescriptor⟩

def stateRequest : Request :=
  { table := "orders"
    index := some "totals"
    consistentRead := none
    keyCondition := some "#n0 = :v0 AND #n1 > :v1"
    filter := some "(#n2 = :v2)"
    names := [("#n0", "status"), ("#n1", "total"), ("#n2", "mail")]
    values := [(":v0", .string "open"), (":v1", .bool true), (":v2", .string "m1")]
    projection := none
    select := none
    limit := none
    startKey := none
    forward := none }

theorem select?_stateTree : Index.select? catalog stateTree = some stateSelection := rfl

set_option maxRecDepth 4000 in
theorem forFilter_stateTree :
    Request.forFilter catalog stateTree Example.options = .ok stateRequest := rfl

end Example

open Example in
theorem Request.forFilter_explicit_example :
    Example.options.index = .automatic ∧
      Index.select? catalog stateTree = some stateSelection ∧
      forFilter catalog stateTree { Example.options with index := .given stateDescriptor } =
        .ok stateRequest ∧
      catalog.IsAccepted ∧
      forFilter catalog stateTree { Example.options with index := .named "totals" } =
        .ok stateRequest := by
  have hautomatic : Example.options.index = .automatic := rfl
  have hboth := forFilter_explicit hautomatic select?_stateTree
  have hnamed := hboth.2 isAccepted_catalog nofun "totals" rfl
  exact ⟨hautomatic, select?_stateTree, hboth.1.trans forFilter_stateTree, isAccepted_catalog,
    hnamed.trans forFilter_stateTree⟩

end IndexedSearch
