import IndexedSearch.Proofs.Index.Rearranged
import IndexedSearch.Proofs.Request.KeyCondition

/-!
# Requests and the order of conditions

Filters without markers that have the same conditions in the groups of their outermost level are
served in the same way, in whatever order and groups the conditions stand and whatever else is
nested among them: both requests are queries or both are scans, of the same index, and the
placeholders in their key conditions stand for the same attributes.
-/

namespace IndexedSearch

open Expression (Level Resolved)
open IndexedSearch.Filter (Clause)

/-- Two requests are served in the same way. -/
structure Request.SameRoute (request other : Request) : Prop where
  operation : request.operation = other.operation
  index : request.index = other.index
  bindings : request.keyBindings = other.keyBindings

namespace Request.KeyFits

variable {schema : Schema} {first second : Filter.Tree Clause} {request other : Request}
  {descriptor? : Option Index.Descriptor}

theorem isSome_keyCondition_eq (hrequest : request.KeyFits schema first descriptor?)
    (hother : other.KeyFits schema second descriptor?) (h : first.IsRearranged second) :
    request.keyCondition.isSome = other.keyCondition.isSome := by
  apply Bool.eq_iff_iff.2
  rw [hrequest.present, hother.present]
  simp only [h.keysHash_iff]

/-- The key conditions are on the same attributes. -/
theorem keyBindings_eq (hrequest : request.KeyFits schema first descriptor?)
    (hother : other.KeyFits schema second descriptor?) (h : first.IsRearranged second) :
    request.keyBindings = other.keyBindings := by
  have hnone : request.keyCondition = none ↔ other.keyCondition = none := by
    rw [← Option.not_isSome_iff_eq_none, ← Option.not_isSome_iff_eq_none,
      isSome_keyCondition_eq hrequest hother h]
  cases htext : request.keyCondition with
  | none =>
    rw [keyBindings, keyBindings, htext, hnone.1 htext]
    rfl
  | some text =>
    have hpresent : other.keyCondition ≠ none := by
      rw [ne_eq, ← hnone, htext]
      exact Option.some_ne_none text
    obtain ⟨otherText, hother?⟩ := Option.ne_none_iff_exists'.1 hpresent
    obtain ⟨descriptor, hdescriptor, key, hkey, hhas⟩ := hrequest.key text htext
    obtain ⟨_, hsame, otherKey, hotherKey, hotherHas⟩ := hother.key otherText hother?
    cases Option.mem_unique hdescriptor hsame
    rw [hhas.bound, hotherHas.bound, h.map_name_eq hkey hotherKey]

end Request.KeyFits

namespace Plan

variable {schema : Schema} {tree : Filter.Tree Clause} {options : Options} {plan : Plan}

/-- With an automatic choice, the index of a request is the one that is selected. -/
theorem index_request (h : make schema tree options = .ok plan)
    (hautomatic : options.index = .automatic) :
    (plan.request schema options).index =
      ((Index.select? schema tree).map Index.Selection.descriptor).bind
        Index.Descriptor.sentName := by
  obtain ⟨_, resolution, hresolve, _, projection, _, rfl⟩ := make_eq_ok_iff.1 h
  rw [hautomatic] at hresolve
  rw [← Index.descriptor_of_resolve_automatic hresolve]
  rfl

/-- With an automatic choice, the key condition is sound for the index that is selected. -/
theorem keyFits_automatic (h : make schema tree options = .ok plan)
    (hautomatic : options.index = .automatic) :
    (plan.request schema options).KeyFits schema tree
      ((Index.select? schema tree).map Index.Selection.descriptor) := by
  obtain ⟨_, resolution, hresolve, _⟩ := make_eq_ok_iff.1 h
  have hfits := keyFits h hresolve
  rw [hautomatic] at hresolve
  rwa [Index.descriptor_of_resolve_automatic hresolve] at hfits

end Plan

namespace Request

/--
The same index is selected for two filters with the same conditions, or none for both. If it is
chosen automatically, requests for both are served in the same way, whatever else they ask for.
-/
theorem sameRoute_of_isRearranged (schema : Schema) {first second : Filter.Tree Clause}
    (h : first.IsRearranged second) :
    (Index.select? schema first).map Index.Selection.descriptor =
        (Index.select? schema second).map Index.Selection.descriptor ∧
      ∀ options others request other, options.index = .automatic → others.index = .automatic →
        Request.forFilter schema first options = .ok request →
        Request.forFilter schema second others = .ok other → request.SameRoute other := by
  have hselect := h.map_descriptor_select? schema
  refine ⟨hselect, ?_⟩
  intro options others request other hoptions hothers hrequest hother
  obtain ⟨plan, hplan, rfl⟩ := forFilter_eq_ok_iff.1 hrequest
  obtain ⟨otherPlan, hotherPlan, rfl⟩ := forFilter_eq_ok_iff.1 hother
  have hfits := Plan.keyFits_automatic hplan hoptions
  have hotherFits := Plan.keyFits_automatic hotherPlan hothers
  rw [← hselect] at hotherFits
  constructor
  · rw [operation, operation, isQuery, isQuery, hfits.isSome_keyCondition_eq hotherFits h]
  · rw [Plan.index_request hplan hoptions, Plan.index_request hotherPlan hothers, hselect]
  · exact hfits.keyBindings_eq hotherFits h

/-! ## An example -/

/-- The conditions of the example in another order and in other groups. -/
def rearrangedSteps : List Filter.Step :=
  [.filter "placed" (.between (.string "a") (.string "b")),
    .filterAll [("total.net", .gt (.bool true)), ("customer", .equality (.string "c1"))]]

def rearrangedTree : Filter.Tree Clause :=
  (Filter.Tree.ofSteps rearrangedSteps).toOption.getD []

def rearrangedRequest : Request :=
  { Example.request with
    filter := some "(#n2.#n3 > :v3)"
    names := [("#n0", "customer"), ("#n1", "placed"), ("#n2", "total"), ("#n3", "net")]
    values := [(":v0", .string "c1"), (":v1", .string "a"), (":v2", .string "b"),
      (":v3", .bool true)] }

set_option maxRecDepth 4000 in
theorem forFilter_rearrangedTree :
    Request.forFilter Example.schema rearrangedTree Example.options = .ok rearrangedRequest := rfl

theorem isRearranged_rearrangedTree : Example.tree.IsRearranged rearrangedTree := by
  refine ⟨rfl, rfl, ?_⟩
  exact (List.reverse_perm Example.tree.groupLeaves).symm

theorem sameRoute_example :
    Example.tree.IsRearranged rearrangedTree ∧
      (Index.select? Example.schema Example.tree).map Index.Selection.descriptor =
        (Index.select? Example.schema rearrangedTree).map Index.Selection.descriptor ∧
      Example.request.SameRoute rearrangedRequest := by
  have hboth := sameRoute_of_isRearranged Example.schema isRearranged_rearrangedTree
  refine ⟨isRearranged_rearrangedTree, hboth.1, ?_⟩
  exact hboth.2 Example.options Example.options Example.request rearrangedRequest rfl rfl
    Example.forFilter_tree forFilter_rearrangedTree

end Request

end IndexedSearch
