import IndexedSearch.Proofs.Request.Choosing
import IndexedSearch.Proofs.Request.Placeholders

/-!
# Options do not get into conditions

Two requests for the same filter and the same choice of an index have the same conditions with the
same operands, and the placeholders in them stand for the same names, whatever else they ask for.
Every other option shows in a part of the request of its own. A request that only counts projects
nothing, and its names are those in its conditions.
-/

namespace IndexedSearch

open Expression (Atom Hold Slot Token namePlaceholder)
open IndexedSearch.Filter (Clause)

namespace Request

/-- Both requests are for the same conditions of one index, with the same operands and names. -/
structure SameConditions (request other : Request) : Prop where
  table : request.table = other.table
  index : request.index = other.index
  keyCondition : request.keyCondition = other.keyCondition
  filter : request.filter = other.filter
  values : request.values = other.values
  names : ∀ placeholder ∈ request.conditionTokens.filterMap Token.name?, ∃ name,
    request.names.get? placeholder = some name ∧ other.names.get? placeholder = some name

/-- Every option shows in its own part of the request. -/
structure Follows (request : Request) (options : Options) : Prop where
  limit : request.limit = options.limit
  startKey : request.startKey = options.startKey
  consistentRead : request.consistentRead = if options.consistentRead then some true else none
  forward : request.forward = options.order.map fun order ↦ decide (order = .ascending)
  counting : options.countOnly = true → request.projection = none ∧ request.select = some .count ∧
    (request.names.map Prod.fst).Perm (request.conditionTokens.filterMap Token.name?)

end Request

namespace Plan

variable {schema : Schema} {tree : Filter.Tree Clause} {options others : Options}
  {plan otherPlan : Plan}

/-- With the same choice of an index, plans differ only by what they project. -/
theorem eq_of_make (hindex : options.index = others.index)
    (h : make schema tree options = .ok plan) (hother : make schema tree others = .ok otherPlan) :
    otherPlan = { plan with projection := otherPlan.projection } := by
  obtain ⟨_, resolution, hresolve, _, projection, _, rfl⟩ := make_eq_ok_iff.1 h
  obtain ⟨_, found, hfound, _, otherProjection, _, rfl⟩ := make_eq_ok_iff.1 hother
  rw [← hindex] at hfound
  cases hresolve.symm.trans hfound
  rfl

/-- The placeholders of names in the conditions of a request have the numbers of the names. -/
theorem exists_number_of_mem_conditionTokens {placeholder : String}
    (h : placeholder ∈
      (plan.request schema options).conditionTokens.filterMap Token.name?) :
    ∃ number, number < (plan.atoms.flatMap Atom.path).length ∧
      namePlaceholder number = placeholder := by
  have hnames : (plan.request schema options).conditionTokens.filterMap Token.name? =
      (List.range (plan.atoms.flatMap Atom.path).length).map namePlaceholder :=
    plan.filterMap_read?_conditionTokens schema options .name
  rw [hnames] at h
  obtain ⟨number, hnumber, hplaceholder⟩ := List.mem_map.1 h
  exact ⟨number, List.mem_range.1 hnumber, hplaceholder⟩

/-- What is projected does not get into the conditions. -/
theorem sameConditions (plan : Plan) (projection : List (List String)) (schema : Schema)
    (options others : Options) :
    (plan.request schema options).SameConditions
      ({ plan with projection }.request schema others) := by
  refine ⟨rfl, rfl, rfl, rfl, rfl, ?_⟩
  intro placeholder hplaceholder
  obtain ⟨number, hnumber, rfl⟩ := exists_number_of_mem_conditionTokens hplaceholder
  have hnames := (plan.hold_atoms schema options).names
  have hothers := ({ plan with projection }.hold_atoms schema others).names
  exact ⟨_, hnames.get?_eq hnumber, hothers.get?_eq hnumber⟩

/-- With nothing to project, the names of a request are those in its conditions. -/
theorem perm_names_of_projection_eq_nil (h : plan.projection = []) :
    ((plan.request schema options).names.map Prod.fst).Perm
      ((plan.request schema options).conditionTokens.filterMap Token.name?) := by
  have htokens : (plan.request schema options).conditionTokens.filterMap Token.name? =
      (List.range plan.names.length).map namePlaceholder := by
    rw [names, h, List.flatten_nil, List.append_nil]
    exact plan.filterMap_read?_conditionTokens schema options .name
  rw [htokens]
  exact perm_keys_placeholderTable Expression.namePlaceholder_injective plan.names

theorem projection_eq_nil_of_countOnly (h : make schema tree options = .ok plan)
    (hcount : options.countOnly = true) : plan.projection = [] := by
  obtain ⟨_, _, _, _, projection, hprojection, rfl⟩ := make_eq_ok_iff.1 h
  rw [projectionPaths, if_pos hcount] at hprojection
  exact (Except.ok.inj hprojection).symm

theorem follows (h : make schema tree options = .ok plan) :
    (plan.request schema options).Follows options := by
  refine ⟨rfl, rfl, rfl, rfl, ?_⟩
  intro hcount
  have hprojection := projection_eq_nil_of_countOnly h hcount
  refine ⟨?_, ?_, perm_names_of_projection_eq_nil hprojection⟩
  · rw [request, projectionText?, hprojection]
    rfl
  · rw [request, if_pos hcount]

end Plan

namespace Request

variable {schema : Schema} {tree : Filter.Tree Clause} {options others : Options}
  {request other : Request}

/-- Two requests for the same filter and the same choice of an index have the same conditions, and
each follows its own options. -/
theorem sameConditions_and_follows (hindex : options.index = others.index)
    (hrequest : forFilter schema tree options = .ok request)
    (hother : forFilter schema tree others = .ok other) :
    request.SameConditions other ∧ request.Follows options ∧ other.Follows others := by
  obtain ⟨plan, hplan, rfl⟩ := forFilter_eq_ok_iff.1 hrequest
  obtain ⟨otherPlan, hotherPlan, rfl⟩ := forFilter_eq_ok_iff.1 hother
  refine ⟨?_, Plan.follows hplan, Plan.follows hotherPlan⟩
  rw [Plan.eq_of_make hindex hplan hotherPlan]
  exact plan.sameConditions otherPlan.projection schema options others

end Request

/-! ## An example -/

namespace Example

/-- Options that ask for attributes, one of them by two names. -/
def projectingOptions : Options :=
  { options with
    limit := some 3
    order := some .descending
    projection := ["state", "total", "status"] }

def projectingRequest : Request :=
  { stateRequest with
    names := [("#n0", "status"), ("#n1", "total"), ("#n2", "mail"), ("#n3", "status"),
      ("#n4", "total")]
    projection := some "#n3, #n4"
    select := some .specificAttributes
    limit := some 3
    forward := some false }

set_option maxRecDepth 4000 in
theorem forFilter_projectingOptions :
    Request.forFilter catalog stateTree projectingOptions = .ok projectingRequest := rfl

/-- Options that ask for a count, whatever is to be projected. -/
def countingOptions : Options :=
  { projectingOptions with consistentRead := true, countOnly := true }

def countingRequest : Request :=
  { stateRequest with
    consistentRead := some true
    select := some .count
    limit := some 3
    forward := some false }

set_option maxRecDepth 4000 in
theorem forFilter_countingOptions :
    Request.forFilter catalog stateTree countingOptions = .ok countingRequest := rfl

end Example

open Example in
theorem Request.sameConditions_and_follows_example :
    projectingOptions.index = countingOptions.index ∧
      forFilter catalog stateTree projectingOptions = .ok projectingRequest ∧
      forFilter catalog stateTree countingOptions = .ok countingRequest ∧
      projectingRequest.SameConditions countingRequest ∧
      projectingRequest.Follows projectingOptions ∧ countingRequest.Follows countingOptions :=
  ⟨rfl, forFilter_projectingOptions, forFilter_countingOptions,
    sameConditions_and_follows rfl forFilter_projectingOptions forFilter_countingOptions⟩

end IndexedSearch
