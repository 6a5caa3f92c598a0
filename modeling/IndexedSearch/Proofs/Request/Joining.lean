import IndexedSearch.Proofs.Expression.Joining
import IndexedSearch.Proofs.Request.Reading

/-!
# The connectives of a filter expression

Whatever the form of the filter, two neighbouring pieces of a level of its expression stand with
`OR` between them just if a marker stands directly before the entry of the later one. In particular,
a marker is lost if a group or a nested tree without conditions follows it. As long as none does, a
marker anywhere between the two entries is enough.
-/

namespace IndexedSearch

open Expression (Joiner Level Resolved)
open IndexedSearch.Filter (Clause Term)

/-- At every level of a tree, the filter expression has the pieces of the level joined by a rule. -/
structure Request.JoinsBy (request : Request) (joiner : Joiner Resolved)
    (tree : Filter.Tree Resolved) : Prop where
  written : ∃ counter, request.filter =
    (Level.joined? joiner tree).map fun level ↦ (level.number counter).text
  read : request.filter.map request.expression? = (Level.joined? joiner tree).map some

variable {schema : Schema} {tree : Filter.Tree Clause} {options : Options}

namespace Plan

variable {plan : Plan} {resolution : Index.Resolution}

/-- A plan whose filter is the level of a tree joins the pieces of the tree. -/
theorem joinsBy_directly {rest : Filter.Tree Resolved} (h : make schema tree options = .ok plan)
    (hfilter : plan.filter = Level.ofTree? rest) :
    (plan.request schema options).JoinsBy .directly rest := by
  rw [Level.ofTree?_eq_joined?] at hfilter
  constructor
  · refine ⟨Expression.Counter.start.after plan.keyAtoms, ?_⟩
    rw [← hfilter, request, numberedFilter, Option.map_map]
    rfl
  · rw [← hfilter]
    exact map_expression?_filter schema options (isValid_of_mem_atoms h)

/-- Where no marker stands directly before an entry without conditions, none is lost. -/
theorem joinsBy_anywhere {rest : Filter.Tree Resolved} (h : make schema tree options = .ok plan)
    (hfilter : plan.filter = Level.ofTree? rest) (hshows : rest.ShowsAllMarkers) :
    (plan.request schema options).JoinsBy .anywhere rest := by
  have hjoins := joinsBy_directly h hfilter
  rcases hjoins with ⟨hwritten, hread⟩
  rw [← Level.joined?_anywhere hshows] at hwritten hread
  exact ⟨hwritten, hread⟩

/-- The conditions of the key leave a tree that shows all its markers. -/
theorem showsAllMarkers_rest (hresolve : options.index.resolve schema tree = .ok resolution)
    (h : tree.ShowsAllMarkers) :
    ((tree.without ((keyConditions resolution.keys).map Term.position)).mapLeaves
      (Resolved.ofClause schema)).ShowsAllMarkers :=
  (h.without (mem_terms_of_resolve hresolve)).mapLeaves (Resolved.ofClause schema)

end Plan

namespace Request

variable {request : Request}

/--
A marker directly before the entry of the later piece makes for `OR`, and so does one anywhere
between the two entries if no entry without conditions stands directly behind a marker.
-/
theorem joinsBy_forFilter (hrequest : Request.forFilter schema tree options = .ok request) :
    ∃ resolution, options.index.resolve schema tree = .ok resolution ∧
      request.JoinsBy .directly
        ((tree.without ((Plan.keyConditions resolution.keys).map Term.position)).mapLeaves
          (Resolved.ofClause schema)) ∧
      (tree.ShowsAllMarkers → request.JoinsBy .anywhere
        ((tree.without ((Plan.keyConditions resolution.keys).map Term.position)).mapLeaves
          (Resolved.ofClause schema))) := by
  obtain ⟨plan, hplan, rfl⟩ := forFilter_eq_ok_iff.1 hrequest
  obtain ⟨_, resolution, hresolve, _, _, _, heq⟩ := Plan.make_eq_ok_iff.1 hplan
  have hfilter := congrArg Plan.filter heq
  refine ⟨resolution, hresolve, Plan.joinsBy_directly hplan hfilter, ?_⟩
  intro hshows
  exact Plan.joinsBy_anywhere hplan hfilter (Plan.showsAllMarkers_rest hresolve hshows)

theorem joinsBy_example :
    Request.forFilter Example.schema Example.tree Example.options = .ok Example.request ∧
      ∃ resolution, Example.options.index.resolve Example.schema Example.tree = .ok resolution ∧
        Example.request.JoinsBy .directly
          ((Example.tree.without ((Plan.keyConditions resolution.keys).map
            Term.position)).mapLeaves (Resolved.ofClause Example.schema)) ∧
        (Example.tree.ShowsAllMarkers → Example.request.JoinsBy .anywhere
          ((Example.tree.without ((Plan.keyConditions resolution.keys).map
            Term.position)).mapLeaves (Resolved.ofClause Example.schema))) :=
  ⟨Example.forFilter_tree, joinsBy_forFilter Example.forFilter_tree⟩

/-- No marker of a built filter is lost. -/
theorem joinsBy_anywhere_of_ofSteps {steps : List Filter.Step}
    (htree : Filter.Tree.ofSteps steps = .ok tree)
    (hrequest : Request.forFilter schema tree options = .ok request) :
    ∃ resolution, options.index.resolve schema tree = .ok resolution ∧
      request.JoinsBy .anywhere
        ((tree.without ((Plan.keyConditions resolution.keys).map Term.position)).mapLeaves
          (Resolved.ofClause schema)) := by
  obtain ⟨plan, hplan, rfl⟩ := forFilter_eq_ok_iff.1 hrequest
  obtain ⟨_, resolution, hresolve, _, _, _, heq⟩ := Plan.make_eq_ok_iff.1 hplan
  have hshows := Filter.Tree.showsAllMarkers_of_ofSteps htree
  have hrest := Plan.showsAllMarkers_rest hresolve hshows
  exact ⟨resolution, hresolve, Plan.joinsBy_anywhere hplan (congrArg Plan.filter heq) hrest⟩

/-! ## A marker that is lost -/

/-- The serialized form of two conditions with a marker and a group of nothing between them. -/
def hidingJson : Json :=
  let group (conditions : List Json) : Json :=
    .object [("Group", .object [("conditions", .array conditions)])]
  let present (name : String) : Json :=
    .array [.string name, .object [("Operator", .array [.string "Exists", .array []])]]
  .object [("entries",
    .array [group [present "paid"], .string "Or", group [], group [present "sent"]])]

def hidingTree : Filter.Tree Clause := (Filter.Tree.ofJson? hidingJson).getD []

def hidingRequest : Request :=
  { table := "orders"
    index := none
    consistentRead := none
    keyCondition := none
    filter := some "(attribute_exists(#n0)) AND (attribute_exists(#n1))"
    names := [("#n0", "paid"), ("#n1", "sent")]
    values := []
    projection := none
    select := none
    limit := none
    startKey := none
    forward := none }

/-- The two conditions with a connective between them. -/
def hidingLevel (connective : Expression.Connective) : Level Resolved :=
  { first := .parens (.atom ⟨["paid"], .exists, []⟩) []
    rest := [(connective, .parens (.atom ⟨["sent"], .exists, []⟩) [])] }

/-- The store reads `AND`, although a marker stands between the two conditions. -/
theorem not_joinsBy_anywhere :
    Request.forFilter Example.schema hidingTree Example.options = .ok hidingRequest ∧
      ∃ resolution, Example.options.index.resolve Example.schema hidingTree = .ok resolution ∧
        ¬ hidingRequest.JoinsBy .anywhere
          ((hidingTree.without ((Plan.keyConditions resolution.keys).map
            Term.position)).mapLeaves (Resolved.ofClause Example.schema)) := by
  refine ⟨rfl, ⟨none, .none⟩, rfl, ?_⟩
  intro hjoins
  have hwritten : hidingRequest.filter.map hidingRequest.expression? =
      some (some (hidingLevel .and)) := rfl
  have hasked : Level.joined? .anywhere
      ((hidingTree.without []).mapLeaves (Resolved.ofClause Example.schema)) =
        some (hidingLevel .or) := rfl
  have hread : some (some (hidingLevel .and)) = some (some (hidingLevel .or)) := by
    rw [← hwritten, ← Option.map_some, ← hasked]
    exact hjoins.read
  cases hread

end Request

end IndexedSearch
