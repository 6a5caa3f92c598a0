import IndexedSearch.Proofs.Expression.Reader
import IndexedSearch.Proofs.Expression.Shape
import IndexedSearch.Proofs.Filter.Operands
import IndexedSearch.Proofs.Index.KeyTerms
import IndexedSearch.Request.Plan

/-!
# What a plan is made of

A plan can be made if no condition has too few or too many operands, the index can be found, an
order is asked for only with a key condition, and the paths to project can be read. The atoms of a
plan come from the conditions of its filter, so each has a path and as many operands as its operator
takes.
-/

namespace IndexedSearch

open Expression (Level Resolved)
open IndexedSearch.Filter (Clause Term)

namespace Filter.Tree

theorem clause_mem_leaves {tree : Filter.Tree Clause} {term : Term} (h : term ∈ tree.terms) :
    term.clause ∈ tree.leaves := by
  obtain ⟨_, i, entry, hentry, hterm⟩ := mem_terms.1 h
  obtain ⟨conditions, rfl, _, hclause⟩ := Entry.mem_terms.1 hterm
  rw [leaves, Entry.leavesAll_eq_flatMap, List.mem_flatMap]
  exact ⟨_, List.mem_of_getElem? hentry, List.mem_of_getElem? hclause⟩

end Filter.Tree

/-- A clause with as many operands as its operator takes is a valid atom. -/
theorem Expression.Resolved.isValid_ofClause {clause : Clause}
    (h : clause.condition.HasOperands) (schema : Schema) :
    (Resolved.ofClause schema clause).IsValid := by
  constructor
  · exact List.cons_ne_nil _ _
  · rw [Filter.Condition.hasOperands_iff, ← Filter.Operator.admits_arity_iff] at h
    simpa [Resolved.ofClause] using h

namespace Plan

variable {schema : Schema} {tree : Filter.Tree Clause} {options : Options} {plan : Plan}

theorem mem_terms_of_mem_keyConditions {keys : Index.KeyTerms} {terms : List Term}
    (h : keys.AreFrom terms) : ∀ term ∈ keyConditions keys, term ∈ terms := by
  intro term hterm
  unfold keyConditions at hterm
  split at hterm
  · cases hterm
  · rename_i hash hhash
    rcases List.mem_cons.1 hterm with rfl | hterm
    · exact h.hash _ hhash
    · exact h.range term (by simpa using hterm)

/-- What has to be right for a plan to be made, and what is in it. -/
theorem make_eq_ok_iff :
    make schema tree options = .ok plan ↔
      tree.operandError? = none ∧
      ∃ resolution, options.index.resolve schema tree = .ok resolution ∧
      (keyConditions resolution.keys = [] → options.order = none) ∧
      ∃ projection, projectionPaths schema options = .ok projection ∧
      plan = {
        index := resolution.descriptor
        key := Level.conjunction?
          ((keyConditions resolution.keys).map fun term ↦ Resolved.ofClause schema term.clause)
        filter := Level.ofTree?
          ((tree.without ((keyConditions resolution.keys).map Term.position)).mapLeaves
            (Resolved.ofClause schema))
        projection } := by
  unfold make
  cases herror : tree.operandError? with
  | some error => simp [bind_eq_ok_iff, throw_ne_ok]
  | none =>
    simp only [bind_eq_ok_iff, mapError_eq_ok_iff, true_and]
    apply exists_congr
    intro resolution
    apply and_congr_right
    intro _
    split
    · -- Without a key condition, an order is a mistake.
      rename_i hscan
      have hempty : keyConditions resolution.keys = [] ∧ options.order.isSome = true := by
        simpa using hscan
      have hsome : options.order ≠ none := Option.ne_none_iff_isSome.2 hempty.2
      simp [bind_eq_ok_iff, throw_ne_ok, hempty.1, hsome]
    · rename_i hscan
      have horder : keyConditions resolution.keys = [] → options.order = none := by
        simpa using hscan
      rw [bind_eq_ok_iff]
      simp only [mapError_eq_ok_iff, pure_eq_ok_iff, true_and, iff_true_intro horder,
        @eq_comm Plan plan]

/-- The conditions of the key of a plan come from its filter. -/
theorem mem_terms_of_resolve {resolution : Index.Resolution}
    (h : options.index.resolve schema tree = .ok resolution) :
    ∀ term ∈ keyConditions resolution.keys, term ∈ tree.terms :=
  mem_terms_of_mem_keyConditions (Index.areFrom_of_resolve h)

/-- The atoms of a plan are the conditions for the key and those that they leave of the filter. -/
theorem atoms_eq (h : make schema tree options = .ok plan) {resolution : Index.Resolution}
    (hresolve : options.index.resolve schema tree = .ok resolution) :
    plan.atoms =
      ((keyConditions resolution.keys).map Term.clause ++
        (tree.remaining ((keyConditions resolution.keys).map Term.position)).leaves).map
          (Resolved.ofClause schema) := by
  obtain ⟨_, found, hfound, _, projection, _, rfl⟩ := make_eq_ok_iff.1 h
  cases hfound.symm.trans hresolve
  rw [atoms, keyAtoms, filterAtoms, Level.atoms_conjunction?, Level.atoms_ofTree?,
    Filter.Tree.leaves_mapLeaves, Filter.Tree.leaves_remaining, List.map_append, List.map_map]
  rfl

/-- Every atom of a plan is the atom of a condition of its filter. -/
theorem exists_of_mem_atoms (h : make schema tree options = .ok plan) {atom : Resolved}
    (hatom : atom ∈ plan.atoms) :
    ∃ clause ∈ tree.leaves, Resolved.ofClause schema clause = atom := by
  obtain ⟨_, resolution, hresolve, -⟩ := make_eq_ok_iff.1 h
  rw [atoms_eq h hresolve] at hatom
  obtain ⟨clause, hclause, hatom⟩ := List.mem_map.1 hatom
  refine ⟨clause, ?_, hatom⟩
  rcases List.mem_append.1 hclause with hkey | hremaining
  · obtain ⟨term, hterm, rfl⟩ := List.mem_map.1 hkey
    exact Filter.Tree.clause_mem_leaves (mem_terms_of_resolve hresolve term hterm)
  · exact (Filter.Tree.leaves_remaining_sublist _ tree).subset hremaining

/-- Every atom of a plan has a path and as many operands as its operator takes. -/
theorem isValid_of_mem_atoms (h : make schema tree options = .ok plan) :
    ∀ atom ∈ plan.atoms, atom.IsValid := by
  intro atom hatom
  obtain ⟨clause, hclause, rfl⟩ := exists_of_mem_atoms h hatom
  have hoperands := Filter.Tree.operandError?_eq_none_iff.1 (make_eq_ok_iff.1 h).1
  exact Resolved.isValid_ofClause (hoperands clause hclause) schema

end Plan

theorem Request.forFilter_eq_ok_iff {schema : Schema} {tree : Filter.Tree Clause}
    {options : Options} {request : Request} :
    forFilter schema tree options = .ok request ↔
      ∃ plan, Plan.make schema tree options = .ok plan ∧ plan.request schema options = request :=
  map_eq_ok_iff

/-! ## An example -/

namespace Example

open IndexedSearch.Filter (Step)

def schema : Schema := ⟨"orders", ⟨"customer", some "placed"⟩, [], [], []⟩

def steps : List Step :=
  [.filterAll [("customer", .equality (.string "c1")), ("total.net", .gt (.bool true))],
    .group [.filter "paid" (.equality .null), .or, .filter "sent" .present],
    .filter "placed" (.between (.string "a") (.string "b"))]

def tree : Filter.Tree Clause := (Filter.Tree.ofSteps steps).toOption.getD []

def options : Options := ⟨.automatic, none, false, none, [], false, none⟩

def request : Request :=
  { table := "orders"
    index := none
    consistentRead := none
    keyCondition := some "#n0 = :v0 AND #n1 BETWEEN :v1 AND :v2"
    filter := some "(#n2.#n3 > :v3) AND ((#n4 = :v4) OR (attribute_exists(#n5)))"
    names := [("#n0", "customer"), ("#n1", "placed"), ("#n2", "total"), ("#n3", "net"),
      ("#n4", "paid"), ("#n5", "sent")]
    values := [(":v0", .string "c1"), (":v1", .string "a"), (":v2", .string "b"),
      (":v3", .bool true), (":v4", .null true)]
    projection := none
    select := none
    limit := none
    startKey := none
    forward := none }

theorem ofSteps_steps : Filter.Tree.ofSteps steps = .ok tree := rfl

set_option maxRecDepth 4000 in
theorem forFilter_tree : Request.forFilter schema tree options = .ok request := rfl

end Example

end IndexedSearch
