import IndexedSearch.Proofs.Index.Separate
import IndexedSearch.Proofs.Request.Choosing
import IndexedSearch.Proofs.Request.KeyCondition

/-!
# How often a condition is stated

A request states every condition of its filter, in the key condition or in the filter expression.
It states each one once unless one and the same condition was found for both attributes of the key:
that one stands twice in the key condition. So nothing is stated twice for an index of a schema that
separates its keys, but being accepted does not keep a schema from having an index whose range
attribute is its hash attribute.
-/

namespace IndexedSearch

open Expression (Level Resolved)
open IndexedSearch.Filter (Clause Term)

/-! ## The conditions for the key -/

/-- The conditions for a key are different ones, with a shared one before them once more. -/
theorem Index.KeyTerms.exists_keyConditions_eq {keys : Index.KeyTerms} {tree : Filter.Tree Clause}
    (h : keys.AreFrom tree.terms) :
    ∃ different : List Term, different.Nodup ∧ (∀ term ∈ keys.shared?, term ∈ different) ∧
      Plan.keyConditions keys = keys.shared?.toList ++ different := by
  obtain ⟨hash, range⟩ := keys
  cases hash with
  | none => exact ⟨[], List.nodup_nil, by simp [shared?], rfl⟩
  | some first =>
    cases range with
    | none =>
      exact ⟨[first], List.nodup_singleton first, by simp [shared?],
        by simp [shared?, Plan.keyConditions]⟩
    | some second =>
      by_cases hposition : first.position = second.position
      · have hsame : first = second :=
          Filter.Tree.eq_of_position_eq (h.hash first rfl) (h.range second rfl) hposition
        have hshared : shared? ⟨some first, some second⟩ = some first := by
          simp [shared?, Option.filter, hposition]
        rw [hshared, ← hsame]
        exact ⟨[first], List.nodup_singleton first, by simp, rfl⟩
      · have hne : first ≠ second := fun hsame ↦ hposition (congrArg Term.position hsame)
        have hshared : shared? ⟨some first, some second⟩ = .none := by
          simp [shared?, hposition]
        rw [hshared]
        exact ⟨[first, second], by simp [hne], by simp, rfl⟩

/-! ## The conditions of a request -/

namespace Request

/-- The conditions that a request states, as they are read in its two expressions. -/
def conditions (request : Request) : List Resolved :=
  [request.keyCondition, request.filter].flatMap fun text? ↦
    ((text?.bind request.expression?).map Level.atoms).getD []

/-- Every condition of a filter is stated once, and nothing else is. -/
def StatesOnce (request : Request) (schema : Schema) (tree : Filter.Tree Clause) : Prop :=
  request.conditions.Perm (tree.leaves.map (Resolved.ofClause schema))

theorem bind_expression?_of_map {request : Request} {text? : Option String}
    {level? : Option (Level Resolved)}
    (h : text?.map request.expression? = level?.map some) :
    text?.bind request.expression? = level? := by
  calc
    _ = (text?.map request.expression?).bind id := Option.bind_map.symm
    _ = (level?.map some).bind id := by rw [h]
    _ = level? := by cases level? <;> rfl

end Request

variable {schema : Schema} {tree : Filter.Tree Clause} {options : Options}
  {resolution : Index.Resolution}

namespace Plan

variable {plan : Plan}

/-- The request of a plan states the atoms of the plan. -/
theorem conditions_request (hvalid : ∀ atom ∈ plan.atoms, atom.IsValid) :
    (plan.request schema options).conditions = plan.atoms := by
  have hkey := map_expression?_keyCondition schema options hvalid
  have hfilter := map_expression?_filter schema options hvalid
  rw [Request.conditions, List.flatMap_cons, List.flatMap_cons, List.flatMap_nil, List.append_nil,
    Request.bind_expression?_of_map hkey, Request.bind_expression?_of_map hfilter]
  rfl

/-- A request states every condition of the filter, and a condition that was found for both
attributes of the key once more. -/
theorem perm_conditions (h : make schema tree options = .ok plan)
    (hresolve : options.index.resolve schema tree = .ok resolution) :
    (plan.request schema options).conditions.Perm
      ((resolution.keys.shared?.toList.map Term.clause ++ tree.leaves).map
        (Resolved.ofClause schema)) := by
  have hterms := mem_terms_of_resolve hresolve
  obtain ⟨different, hnodup, hshared, hkey⟩ :=
    Index.KeyTerms.exists_keyConditions_eq (Index.areFrom_of_resolve hresolve)
  have hmem (term : Term) : term ∈ keyConditions resolution.keys ↔ term ∈ different := by
    rw [hkey, List.mem_append, Option.mem_toList]
    exact ⟨fun hor ↦ hor.elim (hshared term) id, .inr⟩
  have hused : (tree.terms.filter fun term ↦
      term.position ∈ (keyConditions resolution.keys).map Term.position).Perm different := by
    have hplaces (term : Term) :
        term.position ∈ (keyConditions resolution.keys).map Term.position ↔
          term.position ∈ different.map Term.position := by
      simp only [List.mem_map, hmem]
    simp only [hplaces]
    exact Filter.Tree.perm_filter_terms hnodup fun term hterm ↦ hterms term ((hmem term).2 hterm)
  rw [conditions_request (isValid_of_mem_atoms h), atoms_eq h hresolve]
  apply List.Perm.map
  -- What is found for the key is the shared condition and the different ones, which are used.
  calc
    _ = resolution.keys.shared?.toList.map Term.clause ++ (different.map Term.clause ++
        (tree.remaining ((keyConditions resolution.keys).map Term.position)).leaves) := by
      rw [← List.append_assoc, ← List.map_append, ← hkey]
    List.Perm _ (resolution.keys.shared?.toList.map Term.clause ++ tree.leaves) := by
      apply List.Perm.append_left
      apply List.Perm.trans _ (Filter.Tree.leaves_perm_used_and_remaining hterms).symm
      exact (hused.symm.map Term.clause).append_right _

end Plan

namespace Request

variable {request : Request}

/-- Every condition is stated once just if none was found for both attributes of the key. -/
theorem statesOnce_iff (hresolve : options.index.resolve schema tree = .ok resolution)
    (hrequest : forFilter schema tree options = .ok request) :
    request.StatesOnce schema tree ↔
      ∀ first ∈ resolution.keys.hash, ∀ second ∈ resolution.keys.range,
        first.position ≠ second.position := by
  obtain ⟨plan, hplan, rfl⟩ := forFilter_eq_ok_iff.1 hrequest
  have hperm := Plan.perm_conditions hplan hresolve
  rw [← Index.KeyTerms.shared?_eq_none_iff]
  constructor
  · intro honce
    have hlength := hperm.length_eq
    rw [honce.length_eq, List.length_map, List.length_map, List.length_append, List.length_map]
      at hlength
    have hempty : resolution.keys.shared?.toList = [] := List.length_eq_zero_iff.1 (by omega)
    simpa using hempty
  · intro hnone
    rw [hnone] at hperm
    exact hperm

/-- If two terms are found for a key, the key condition is made of just these. -/
theorem hasKey_of_findsBoth {descriptor : Index.Descriptor} {range : String} {first second : Term}
    (hfirst : first ∈ resolution.keys.hash) (hsecond : second ∈ resolution.keys.range)
    (hboth : Index.FindsBoth schema tree descriptor range first second)
    (hresolve : options.index.resolve schema tree = .ok resolution)
    (hrequest : forFilter schema tree options = .ok request) :
    ∃ text ∈ request.keyCondition,
      request.HasKey text [⟨descriptor.hash, first⟩, ⟨range, second⟩] := by
  obtain ⟨plan, hplan, rfl⟩ := forFilter_eq_ok_iff.1 hrequest
  have hkey : plan.key = Level.conjunction?
      (([⟨descriptor.hash, first⟩, ⟨range, second⟩] : List Index.KeyPart).map
        Index.KeyPart.atom) := by
    rw [Plan.key_eq_conjunction? hplan hresolve, Plan.keyConditions, Option.mem_def.1 hfirst,
      Option.mem_def.1 hsecond]
    simp [hboth.onHash.ofClause_eq, hboth.onRange.ofClause_eq]
  have hsome : (plan.request schema options).keyCondition.isSome = true := by
    rw [Plan.request, Plan.numberedKey, hkey]
    rfl
  obtain ⟨text, htext⟩ := Option.isSome_iff_exists.1 hsome
  exact ⟨text, htext, Plan.hasKey (Plan.isValid_of_mem_atoms hplan) hkey htext⟩

/--
Where two terms are found for a key, the key condition states them for the two attributes of the
index. They are the same condition just if the attributes are the same, which they are for no index
that is selected or named in a schema that separates its keys. The conditions of the filter are
stated once just if there are no two terms that are the same; otherwise that one stands there once
more.
-/
theorem findsBoth_and_statesOnce_iff
    (hresolve : options.index.resolve schema tree = .ok resolution) :
    (∀ first ∈ resolution.keys.hash, ∀ second ∈ resolution.keys.range,
      ∃ descriptor ∈ resolution.descriptor, ∃ range,
        Index.FindsBoth schema tree descriptor range first second ∧
          (schema.SeparatesKeys → options.index ≠ .given descriptor →
            descriptor.hash ≠ range ∧ first.position ≠ second.position) ∧
          ∀ request, forFilter schema tree options = .ok request →
            ∃ text ∈ request.keyCondition,
              request.HasKey text [⟨descriptor.hash, first⟩, ⟨range, second⟩]) ∧
      ∀ request, forFilter schema tree options = .ok request →
        request.conditions.Perm
            ((resolution.keys.shared?.toList.map Term.clause ++ tree.leaves).map
              (Resolved.ofClause schema)) ∧
          (request.StatesOnce schema tree ↔
            ∀ first ∈ resolution.keys.hash, ∀ second ∈ resolution.keys.range,
              first.position ≠ second.position) := by
  constructor
  · intro first hfirst second hsecond
    obtain ⟨descriptor, hdescriptor, range, hboth⟩ :=
      Index.exists_findsBoth_of_resolve hresolve hfirst hsecond
    refine ⟨descriptor, hdescriptor, range, hboth, ?_, ?_⟩
    · intro hschema hchoice
      have hseparate := Index.isSeparate_of_resolve hschema hresolve hdescriptor hchoice
      have hne := hseparate range hboth.isRange
      exact ⟨hne, fun hposition ↦ hne (hboth.same.1 hposition)⟩
    · intro request hrequest
      exact hasKey_of_findsBoth hfirst hsecond hboth hresolve hrequest
  · intro request hrequest
    refine ⟨?_, statesOnce_iff hresolve hrequest⟩
    obtain ⟨plan, hplan, rfl⟩ := forFilter_eq_ok_iff.1 hrequest
    exact Plan.perm_conditions hplan hresolve

end Request

/-! ## Examples -/

namespace Example

def stateKeys : Index.KeyTerms := Index.keyTerms catalog stateTree stateDescriptor

theorem resolve_stateTree :
    Example.options.index.resolve catalog stateTree = .ok ⟨stateDescriptor, stateKeys⟩ :=
  Index.resolve_automatic_of_select? select?_stateTree

theorem separatesKeys_catalog : catalog.SeparatesKeys := by
  constructor
  · intro range hrange
    cases hrange
    decide
  · decide
  · decide

end Example

open Example in
theorem Request.findsBoth_and_statesOnce_example :
    Example.options.index.resolve catalog stateTree = .ok ⟨stateDescriptor, stateKeys⟩ ∧
      stateKeys.hash.map Term.position = some ⟨0, 1⟩ ∧
      stateKeys.range.map Term.position = some ⟨1, 0⟩ ∧
      catalog.SeparatesKeys ∧
      forFilter catalog stateTree Example.options = .ok stateRequest ∧
      stateRequest.StatesOnce catalog stateTree := by
  have hkeys := findsBoth_and_statesOnce_iff resolve_stateTree
  refine ⟨resolve_stateTree, rfl, rfl, separatesKeys_catalog, forFilter_stateTree, ?_⟩
  apply (hkeys.2 stateRequest forFilter_stateTree).2.2
  intro first hfirst second hsecond
  obtain ⟨descriptor, _, range, _, hdifferent, _⟩ := hkeys.1 first hfirst second hsecond
  exact (hdifferent separatesKeys_catalog nofun).2

namespace Example

/-- A table with a local index whose range attribute is the hash attribute of the table. -/
def repeatingDeclarations : List Declaration :=
  [.hashKey "customer", .rangeKey "placed", .localIndex ⟨"byCustomer", "customer", .all⟩]

def repeatingSchema : Schema :=
  (Schema.ofDeclarations "orders" repeatingDeclarations).toOption.getD Example.schema

def repeatingDescriptor : Index.Descriptor :=
  ⟨.localIndex, some "byCustomer", "customer", some "customer"⟩

def customerSteps : List Filter.Step := [.filter "customer" (.equality (.string "c1"))]

def customerTree : Filter.Tree Clause := (Filter.Tree.ofSteps customerSteps).toOption.getD []

/-- The only condition of the filter, at its place. -/
def customerTerm : Term := ⟨⟨0, 0⟩, customerTree.leaves.head (List.cons_ne_nil _ _)⟩

def customerRequest : Request :=
  { table := "orders"
    index := some "byCustomer"
    consistentRead := none
    keyCondition := some "#n0 = :v0 AND #n1 = :v1"
    filter := none
    names := [("#n0", "customer"), ("#n1", "customer")]
    values := [(":v0", .string "c1"), (":v1", .string "c1")]
    projection := none
    select := none
    limit := none
    startKey := none
    forward := none }

theorem isAccepted_repeatingSchema : repeatingSchema.IsAccepted :=
  ⟨"orders", repeatingDeclarations, rfl⟩

end Example

open Example in
/-- An accepted schema can have an index with one attribute twice. Whether that index is selected or
named, the only condition of a filter then stands twice in the key condition. -/
theorem Request.not_statesOnce_repeating :
    repeatingSchema.IsAccepted ∧ Filter.Tree.ofSteps customerSteps = .ok customerTree ∧
      customerTree.leaves = [customerTerm.clause] ∧
      ∀ choice ∈ [Index.Choice.automatic, .named "byCustomer"],
        choice.resolve repeatingSchema customerTree =
          .ok ⟨repeatingDescriptor, ⟨customerTerm, customerTerm⟩⟩ ∧
        forFilter repeatingSchema customerTree { Example.options with index := choice } =
          .ok customerRequest ∧
        ¬ customerRequest.StatesOnce repeatingSchema customerTree := by
  refine ⟨isAccepted_repeatingSchema, rfl, rfl, ?_⟩
  have hresolve : ∀ choice ∈ [Index.Choice.automatic, .named "byCustomer"],
      choice.resolve repeatingSchema customerTree =
        .ok ⟨repeatingDescriptor, ⟨customerTerm, customerTerm⟩⟩ :=
    List.forall_mem_cons.2 ⟨rfl, List.forall_mem_singleton.2 rfl⟩
  intro choice hchoice
  have hrequest : forFilter repeatingSchema customerTree
      { Example.options with index := choice } = .ok customerRequest := by
    rw [forFilter_congr rfl rfl
      ((hresolve choice hchoice).trans (hresolve .automatic List.mem_cons_self).symm)]
    rfl
  refine ⟨hresolve choice hchoice, hrequest, fun honce ↦ ?_⟩
  exact (statesOnce_iff (hresolve choice hchoice) hrequest).1 honce _ rfl _ rfl rfl

end IndexedSearch
