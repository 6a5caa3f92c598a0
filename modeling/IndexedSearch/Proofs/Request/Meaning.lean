import IndexedSearch.Proofs.Expression.Truth
import IndexedSearch.Proofs.Request.ReadBack

/-!
# What a request means

A request finds the items for which its key condition and its filter expression are true; one that
is absent is true of every item. The request for a built filter means what the filter does, whatever
is true of the conditions and whatever part of them an index takes over.
-/

namespace IndexedSearch

open Expression (Level Resolved)
open IndexedSearch.Filter (Clause Step Term)

namespace Request

variable (truth : Resolved → Bool)

/-- The truth value of an expression of a request, if it can be read. -/
def expressionHolds? (request : Request) : Option String → Option Bool
  | none => some true
  | some text => (request.expression? text).map (Level.holds truth)

/-- A text that is read as a level is true just if the level is. -/
theorem expressionHolds?_of_map {request : Request} {text? : Option String}
    {level? : Option (Level Resolved)} (h : text?.map request.expression? = level?.map some) :
    request.expressionHolds? truth text? = some ((level?.map (Level.holds truth)).getD true) := by
  cases text? with
  | none =>
    have hnone : level? = none := Option.map_eq_none_iff.1 h.symm
    rw [hnone]
    rfl
  | some text =>
    obtain ⟨level, rfl, hlevel⟩ := Option.map_eq_some_iff.1 h.symm
    rw [expressionHolds?, ← hlevel]
    rfl

/-- The truth value of both expressions of a request together, if they can be read. -/
def holds? (request : Request) : Option Bool := do
  return (← request.expressionHolds? truth request.keyCondition) &&
    (← request.expressionHolds? truth request.filter)

end Request

namespace Plan

variable {schema : Schema} {tree : Filter.Tree Clause} {options : Options} {plan : Plan}
  {resolution : Index.Resolution} (truth : Resolved → Bool)

/-- The key condition of a request is true if the conditions that are used for the key are. -/
theorem keyConditionHolds (h : make schema tree options = .ok plan)
    (hresolve : options.index.resolve schema tree = .ok resolution) :
    (plan.request schema options).expressionHolds? truth
        (plan.request schema options).keyCondition =
      some ((keyConditions resolution.keys).all fun term ↦
        truth (Resolved.ofClause schema term.clause)) := by
  have htext := map_expression?_keyCondition schema options (isValid_of_mem_atoms h)
  rw [Request.expressionHolds?_of_map truth htext, key_eq_conjunction? h hresolve,
    Level.holds_conjunction?, List.all_map]
  rfl

/-- The filter expression of a request is true if what remains of a well-formed tree holds. -/
theorem filterHolds (h : make schema tree options = .ok plan) (hform : tree.IsWellFormed)
    (hresolve : options.index.resolve schema tree = .ok resolution) :
    (plan.request schema options).expressionHolds? truth (plan.request schema options).filter =
      some ((tree.remaining ((keyConditions resolution.keys).map Term.position)).holds fun clause ↦
        truth (Resolved.ofClause schema clause)) := by
  have htext := map_expression?_filter schema options (isValid_of_mem_atoms h)
  have hrest := (hform.remaining (mem_terms_of_resolve hresolve)).mapLeaves
    (Resolved.ofClause schema)
  rw [Request.expressionHolds?_of_map truth htext, filter_eq_ofTree? h hform hresolve,
    Level.holds_ofTree? hrest, Filter.Tree.holds_mapLeaves]

end Plan

namespace Request

/-- The request for a built filter is true of what the filter holds for. -/
theorem holds?_forFilter {steps : List Step} {schema : Schema} {tree : Filter.Tree Clause}
    {options : Options} {request : Request} (htree : Filter.Tree.ofSteps steps = .ok tree)
    (hrequest : Request.forFilter schema tree options = .ok request) (truth : Resolved → Bool) :
    request.holds? truth =
      some (tree.holds fun clause ↦ truth (Resolved.ofClause schema clause)) := by
  obtain ⟨plan, hplan, rfl⟩ := forFilter_eq_ok_iff.1 hrequest
  obtain ⟨_, resolution, hresolve, _⟩ := Plan.make_eq_ok_iff.1 hplan
  have hkey := Plan.keyConditionHolds truth hplan hresolve
  have hfilter :=
    Plan.filterHolds truth hplan (Filter.Tree.isWellFormed_of_ofSteps htree) hresolve
  have hterms := Plan.mem_terms_of_resolve hresolve
  calc
    _ = some (((Plan.keyConditions resolution.keys).all fun term ↦
          truth (Resolved.ofClause schema term.clause)) &&
        (tree.remaining ((Plan.keyConditions resolution.keys).map Term.position)).holds
          fun clause ↦ truth (Resolved.ofClause schema clause)) := by
      rw [holds?, hkey, hfilter]
      rfl
    _ = _ := by rw [Filter.Tree.holds_eq_used_and_remaining hterms]

theorem holds?_example :
    Filter.Tree.ofSteps Example.steps = .ok Example.tree ∧
      Request.forFilter Example.schema Example.tree Example.options = .ok Example.request ∧
      Example.request.holds? (fun atom ↦ atom.operator != .exists) =
        some (Example.tree.holds fun clause ↦
          (Resolved.ofClause Example.schema clause).operator != .exists) :=
  ⟨Example.ofSteps_steps, Example.forFilter_tree,
    holds?_forFilter Example.ofSteps_steps Example.forFilter_tree _⟩

end Request

end IndexedSearch
