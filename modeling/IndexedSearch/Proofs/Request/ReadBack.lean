import IndexedSearch.Proofs.Expression.Depth
import IndexedSearch.Proofs.Request.Reading

/-!
# The filter of a request can be read back

The key condition of a request is the conjunction of the conditions of the filter that are used for
the key. The filter expression stands for one tree: what remains of the filter without them, each of
the other conditions with the stored name of its attribute and with its operands as they are sent.
There is no filter expression just if nothing remains.
-/

namespace IndexedSearch

open Expression (Level Resolved)
open IndexedSearch.Filter (Clause Step Term)

/-- The filter tree that a text stands for, read with the tables of a request. -/
def Request.filterTree? (request : Request) (text : String) : Option (Filter.Tree Resolved) :=
  (request.expression? text).bind Level.tree?

variable {schema : Schema} {tree : Filter.Tree Clause} {options : Options} {request : Request}

namespace Plan

variable {plan : Plan} {resolution : Index.Resolution}

/-- The key condition of a plan is the conjunction of the conditions that are used for the key. -/
theorem key_eq_conjunction? (h : make schema tree options = .ok plan)
    (hresolve : options.index.resolve schema tree = .ok resolution) :
    plan.key = Level.conjunction? ((keyConditions resolution.keys).map fun term ↦
      Resolved.ofClause schema term.clause) := by
  obtain ⟨_, found, hfound, _, projection, _, rfl⟩ := make_eq_ok_iff.1 h
  cases hfound.symm.trans hresolve
  rfl

/-- The filter of a plan is the level of what remains of a well-formed tree. -/
theorem filter_eq_ofTree? (h : make schema tree options = .ok plan) (hform : tree.IsWellFormed)
    (hresolve : options.index.resolve schema tree = .ok resolution) :
    plan.filter = Level.ofTree?
      ((tree.remaining ((keyConditions resolution.keys).map Term.position)).mapLeaves
        (Resolved.ofClause schema)) := by
  obtain ⟨_, found, hfound, _, projection, _, rfl⟩ := make_eq_ok_iff.1 h
  cases hfound.symm.trans hresolve
  exact Level.ofTree?_without hform (mem_terms_of_resolve hresolve) (Resolved.ofClause schema)

end Plan

namespace Request

section

variable {tree : Filter.Tree Resolved} {text? : Option String} {text : String}

/-- A text for the level of a well-formed tree is absent just if the tree is empty. -/
theorem eq_none_iff_of_map (h : tree.IsWellFormed)
    (htext : text?.map request.expression? = (Level.ofTree? tree).map some) :
    text? = none ↔ tree = [] := by
  rw [← Option.map_eq_none_iff (f := request.expression?), htext, Option.map_eq_none_iff]
  rcases Level.ofTree?_cases h with ⟨hnil, hnone⟩ | ⟨level, hlevel, htree⟩
  · exact iff_of_true hnone hnil
  · apply iff_of_false (by simp [hlevel])
    intro hnil
    rw [hnil] at htree
    exact Level.tree?_ne_nil htree

/-- A text for the level of a well-formed tree stands for the tree. -/
theorem filterTree?_of_map (h : tree.IsWellFormed)
    (htext : text?.map request.expression? = (Level.ofTree? tree).map some)
    (hmem : text ∈ text?) : request.filterTree? text = some tree := by
  rw [Option.mem_def.1 hmem, Option.map_some] at htext
  rcases Level.ofTree?_cases h with ⟨hnil, hnone⟩ | ⟨level, hlevel, htree⟩
  · rw [hnone] at htext
    cases htext
  · rw [hlevel, Option.map_some] at htext
    rw [filterTree?, Option.some.inj htext, Option.bind_some, htree]

end

/--
The key condition is the conjunction of the used conditions of a tree, and the filter expression
stands for what remains of the tree without them. No other condition is lost, doubled or moved, and
every group and nested tree costs one level of parentheses.
-/
structure ReadsBack (request : Request) (schema : Schema) (tree : Filter.Tree Clause)
    (used : List Term) : Prop where
  known : ∀ term ∈ used, term ∈ tree.terms
  key : request.keyCondition.map request.expression? =
    (Level.conjunction? (used.map fun term ↦ Resolved.ofClause schema term.clause)).map some
  absent : request.filter = none ↔ tree.remaining (used.map Term.position) = []
  read : ∀ text ∈ request.filter, request.filterTree? text =
    some ((tree.remaining (used.map Term.position)).mapLeaves (Resolved.ofClause schema))
  depth : ∀ text ∈ request.filter, ∀ level ∈ request.expression? text,
    level.depth = (tree.remaining (used.map Term.position)).depth
  order : (tree.remaining (used.map Term.position)).leaves.Sublist tree.leaves
  shared : tree.leaves.Perm
    ((tree.terms.filter fun term ↦ term.position ∈ used.map Term.position).map Term.clause ++
      (tree.remaining (used.map Term.position)).leaves)

/-- The filter expression of a built filter is read back as what the key condition leaves of it. -/
theorem readsBack_forFilter {steps : List Step} (htree : Filter.Tree.ofSteps steps = .ok tree)
    (hrequest : Request.forFilter schema tree options = .ok request) :
    ∃ resolution, options.index.resolve schema tree = .ok resolution ∧
      request.ReadsBack schema tree (Plan.keyConditions resolution.keys) := by
  obtain ⟨plan, hplan, rfl⟩ := forFilter_eq_ok_iff.1 hrequest
  obtain ⟨_, resolution, hresolve, _⟩ := Plan.make_eq_ok_iff.1 hplan
  have hform := Filter.Tree.isWellFormed_of_ofSteps htree
  have hterms := Plan.mem_terms_of_resolve hresolve
  have hvalid := Plan.isValid_of_mem_atoms hplan
  have hkey := Plan.map_expression?_keyCondition schema options hvalid
  have hfilter := Plan.map_expression?_filter schema options hvalid
  rw [Plan.key_eq_conjunction? hplan hresolve] at hkey
  rw [Plan.filter_eq_ofTree? hplan hform hresolve] at hfilter
  have hrest := (hform.remaining hterms).mapLeaves (Resolved.ofClause schema)
  exact ⟨resolution, hresolve,
    { known := hterms
      key := hkey
      absent := (eq_none_iff_of_map hrest hfilter).trans Filter.Tree.mapLeaves_eq_nil_iff
      read := fun text htext ↦ filterTree?_of_map hrest hfilter htext
      depth := fun text htext level hlevel ↦ by
        have htree := filterTree?_of_map hrest hfilter htext
        rw [filterTree?, Option.mem_def.1 hlevel, Option.bind_some] at htree
        rw [Level.depth_of_tree? htree, Filter.Tree.depth_mapLeaves]
      order := Filter.Tree.leaves_remaining_sublist _ tree
      shared := Filter.Tree.leaves_perm_used_and_remaining hterms }⟩

theorem readsBack_example :
    Filter.Tree.ofSteps Example.steps = .ok Example.tree ∧
      Request.forFilter Example.schema Example.tree Example.options = .ok Example.request ∧
      ∃ resolution, Example.options.index.resolve Example.schema Example.tree = .ok resolution ∧
        Example.request.ReadsBack Example.schema Example.tree
          (Plan.keyConditions resolution.keys) :=
  ⟨Example.ofSteps_steps, Example.forFilter_tree,
    readsBack_forFilter Example.ofSteps_steps Example.forFilter_tree⟩

end Request

end IndexedSearch
