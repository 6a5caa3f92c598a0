import IndexedSearch.Proofs.Filter.Operands
import IndexedSearch.Proofs.Filter.Paths
import IndexedSearch.Proofs.Index.Choosing
import IndexedSearch.Proofs.Request.KeyCondition

/-!
# What is refused, and for which mistake

There are four mistakes that keep a request from being made. If there are several, one goes before
the other: a wrong number of operands before the name of an unknown index, that before an order
without a key condition, and that before a text that is no path among the names to project. Of the
conditions and of the texts, the first one with a mistake counts. Every other search gets a request.
-/

namespace IndexedSearch

open IndexedSearch.Filter (Clause IsPathText Term)

variable {schema : Schema} {tree : Filter.Tree Clause} {options : Options}

/-! ## The mistakes -/

/-- The mistake for which a request is refused. -/
inductive Mistake (schema : Schema) (tree : Filter.Tree Clause) (options : Options) :
    SearchError → Prop
  | operands {before after : List Clause} {clause : Clause}
    (hleaves : tree.leaves = before ++ clause :: after)
    (hbefore : ∀ earlier ∈ before, earlier.condition.HasOperands)
    (hclause : ¬ clause.condition.HasOperands) :
    Mistake schema tree options
      (.usage (.operandCount clause.condition.operator clause.condition.operands.length))
  | index {name : String} (hoperands : tree.HasOperands) (hname : options.index = .named name)
    (hunknown : name ∉ schema.indexNames) :
    Mistake schema tree options (.schema (.indexNotFound name))
  | ordering (hoperands : tree.HasOperands) (hindex : options.index.IsKnown schema)
    (horder : options.order ≠ none) (hkey : ¬ options.index.HasKey schema tree) :
    Mistake schema tree options (.usage .scanOrdering)
  | projection {before after : List String} {text : String} (hoperands : tree.HasOperands)
    (hindex : options.index.IsKnown schema)
    (hordering : options.order ≠ none → options.index.HasKey schema tree)
    (hcount : options.countOnly = false)
    (hprojection : options.projection = before ++ text :: after)
    (hbefore : ∀ earlier ∈ before, IsPathText earlier) (htext : ¬ IsPathText text) :
    Mistake schema tree options (.usage (.invalidPath text))

/-- The search has none of the mistakes. -/
structure IsAllowed (schema : Schema) (tree : Filter.Tree Clause) (options : Options) : Prop where
  operands : tree.HasOperands
  index : options.index.IsKnown schema
  ordering : options.order ≠ none → options.index.HasKey schema tree
  projection : options.countOnly = false → ∀ text ∈ options.projection, IsPathText text

/-! ## Plans that cannot be made -/

namespace Plan

/-- The first text that is no path is reported, unless nothing is projected as items are counted. -/
theorem projectionPaths_eq_error_iff {error : UsageError} :
    projectionPaths schema options = .error error ↔
      options.countOnly = false ∧ ∃ before text after,
        options.projection = before ++ text :: after ∧
        (∀ earlier ∈ before, IsPathText earlier) ∧ ¬ IsPathText text ∧
        UsageError.invalidPath text = error := by
  rw [projectionPaths]
  split
  · rename_i hcount
    exact iff_of_false nofun fun h ↦ by simp [hcount] at h
  · rename_i hcount
    rw [Bool.not_eq_true] at hcount
    simp only [hcount, true_and, bind_eq_error_iff, mapM_eq_error_iff,
      Filter.Path.exists_parse_eq_ok_iff, Filter.Path.parse_eq_error_iff]
    simp [pure_ne_error]

theorem exists_projectionPaths_eq_ok_iff :
    (∃ paths, projectionPaths schema options = .ok paths) ↔
      (options.countOnly = false → ∀ text ∈ options.projection, IsPathText text) := by
  rw [projectionPaths]
  split
  · rename_i hcount
    exact iff_of_true ⟨_, rfl⟩ fun h ↦ by simp [hcount] at h
  · rename_i hcount
    rw [Bool.not_eq_true] at hcount
    simp only [hcount, true_imp_iff, bind_eq_ok_iff, ← Filter.Path.exists_parse_eq_ok_iff]
    rw [← exists_mapM_eq_ok_iff]
    constructor
    · intro hexists
      obtain ⟨_, paths, hpaths, -⟩ := hexists
      exact ⟨paths, hpaths⟩
    · intro hexists
      obtain ⟨paths, hpaths⟩ := hexists
      exact ⟨_, paths, hpaths, rfl⟩

/-- What keeps a plan from being made, one after another. -/
theorem make_eq_error_iff {error : SearchError} :
    make schema tree options = .error error ↔
      (∃ mistake, tree.operandError? = some mistake ∧ .usage mistake = error) ∨
      tree.operandError? = none ∧
        ((∃ mistake, options.index.resolve schema tree = .error mistake ∧
            .schema mistake = error) ∨
          ∃ resolution, options.index.resolve schema tree = .ok resolution ∧
            ((keyConditions resolution.keys = [] ∧ options.order ≠ none) ∧
                .usage .scanOrdering = error ∨
              ¬ (keyConditions resolution.keys = [] ∧ options.order ≠ none) ∧
                ∃ mistake, projectionPaths schema options = .error mistake ∧
                  .usage mistake = error)) := by
  unfold make
  cases herror : tree.operandError? with
  | some mistake => simp [bind_eq_error_iff, throw_eq_error_iff, throw_ne_ok]
  | none =>
    simp only [bind_eq_error_iff, mapError_eq_error_iff, mapError_eq_ok_iff, reduceCtorEq,
      false_and, exists_false, false_or, true_and]
    apply or_congr_right
    apply exists_congr
    intro resolution
    apply and_congr_right
    intro _
    have hscan : ((keyConditions resolution.keys).isEmpty && options.order.isSome) = true ↔
        keyConditions resolution.keys = [] ∧ options.order ≠ none := by
      rw [Bool.and_eq_true, List.isEmpty_iff, Option.ne_none_iff_isSome]
    rw [← hscan]
    split
    · rename_i horder
      simp [horder, bind_eq_error_iff, throw_eq_error_iff, throw_ne_ok]
    · rename_i horder
      rw [bind_eq_error_iff, mapError_eq_error_iff]
      simp [horder, pure_ne_error]

/-- A plan is refused for a mistake only. -/
theorem mistake_of_make {error : SearchError} (h : make schema tree options = .error error) :
    Mistake schema tree options error := by
  rw [make_eq_error_iff, Filter.Tree.operandError?_eq_none_iff] at h
  rcases h with ⟨mistake, hmistake, rfl⟩ | ⟨hoperands, ⟨mistake, hmistake, rfl⟩ | h⟩
  · obtain ⟨before, clause, after, hleaves, hbefore, hclause, rfl⟩ :=
      Filter.Tree.operandError?_eq_some_iff.1 hmistake
    exact .operands hleaves hbefore hclause
  · obtain ⟨name, hname, hunknown, rfl⟩ := Index.resolve_eq_error_iff.1 hmistake
    exact .index hoperands hname hunknown
  · obtain ⟨resolution, hresolve, h⟩ := h
    have hindex := Index.exists_resolve_eq_ok_iff.1 ⟨resolution, hresolve⟩
    rw [Index.keyConditions_eq_nil_iff hresolve] at h
    rcases h with ⟨⟨hkey, horder⟩, rfl⟩ | ⟨hscan, mistake, hmistake, rfl⟩
    · exact .ordering hoperands hindex horder hkey
    · obtain ⟨hcount, before, text, after, hprojection, hbefore, htext, rfl⟩ :=
        projectionPaths_eq_error_iff.1 hmistake
      have hordering : options.order ≠ none → options.index.HasKey schema tree :=
        fun horder ↦ not_not.1 fun hkey ↦ hscan ⟨hkey, horder⟩
      exact .projection hoperands hindex hordering hcount hprojection hbefore htext

/-- Every mistake keeps a plan from being made, and no other one goes before it. -/
theorem make_of_mistake {error : SearchError} (h : Mistake schema tree options error) :
    make schema tree options = .error error := by
  rw [make_eq_error_iff, Filter.Tree.operandError?_eq_none_iff]
  cases h with
  | operands hleaves hbefore hclause =>
    have hmistake := Filter.Tree.operandError?_eq_some_iff.2
      ⟨_, _, _, hleaves, hbefore, hclause, rfl⟩
    exact .inl ⟨_, hmistake, rfl⟩
  | index hoperands hname hunknown =>
    have hmistake : options.index.resolve schema tree = .error _ :=
      Index.resolve_eq_error_iff.2 ⟨_, hname, hunknown, rfl⟩
    exact .inr ⟨hoperands, .inl ⟨_, hmistake, rfl⟩⟩
  | ordering hoperands hindex horder hkey =>
    obtain ⟨resolution, hresolve⟩ := Index.exists_resolve_eq_ok_iff.2 hindex
    have hscan := (Index.keyConditions_eq_nil_iff hresolve).2 hkey
    exact .inr ⟨hoperands, .inr ⟨resolution, hresolve, .inl ⟨⟨hscan, horder⟩, rfl⟩⟩⟩
  | projection hoperands hindex hordering hcount hprojection hbefore htext =>
    obtain ⟨resolution, hresolve⟩ := Index.exists_resolve_eq_ok_iff.2 hindex
    have hmistake : projectionPaths schema options = .error _ :=
      projectionPaths_eq_error_iff.2 ⟨hcount, _, _, _, hprojection, hbefore, htext, rfl⟩
    refine .inr ⟨hoperands, .inr ⟨resolution, hresolve, .inr ⟨?_, _, hmistake, rfl⟩⟩⟩
    rw [Index.keyConditions_eq_nil_iff hresolve]
    exact fun hscan ↦ hscan.1 (hordering hscan.2)

/-- A plan is made if there is no mistake. -/
theorem exists_make_eq_ok_iff :
    (∃ plan, make schema tree options = .ok plan) ↔ IsAllowed schema tree options := by
  constructor
  · intro hexists
    obtain ⟨plan, hplan⟩ := hexists
    obtain ⟨hnone, resolution, hresolve, horder, projection, hprojection, -⟩ :=
      make_eq_ok_iff.1 hplan
    constructor
    · exact Filter.Tree.operandError?_eq_none_iff.1 hnone
    · exact Index.exists_resolve_eq_ok_iff.1 ⟨resolution, hresolve⟩
    · intro hsome
      rw [Index.keyConditions_eq_nil_iff hresolve] at horder
      exact not_not.1 fun hkey ↦ hsome (horder hkey)
    · exact exists_projectionPaths_eq_ok_iff.1 ⟨projection, hprojection⟩
  · intro hallowed
    obtain ⟨resolution, hresolve⟩ := Index.exists_resolve_eq_ok_iff.2 hallowed.index
    obtain ⟨projection, hprojection⟩ := exists_projectionPaths_eq_ok_iff.2 hallowed.projection
    refine ⟨_, make_eq_ok_iff.2 ⟨?_, resolution, hresolve, ?_, projection, hprojection, rfl⟩⟩
    · exact Filter.Tree.operandError?_eq_none_iff.2 hallowed.operands
    · rw [Index.keyConditions_eq_nil_iff hresolve]
      exact fun hkey ↦ not_not.1 fun hsome ↦ hkey (hallowed.ordering hsome)

end Plan

/-! ## What comes of a search -/

namespace Request

/-- A search is refused for its mistake, whatever its filter, its schema and its options are. If it
has none, it gets a request, which is a query just if the filter has a condition for the key of the
index that was chosen. -/
theorem outcome_forFilter (schema : Schema) (tree : Filter.Tree Clause) (options : Options) :
    (∀ error, forFilter schema tree options = .error error ↔ Mistake schema tree options error) ∧
      ((∃ request, forFilter schema tree options = .ok request) ↔
        IsAllowed schema tree options) ∧
      ∀ request, forFilter schema tree options = .ok request →
        (request.isQuery = true ↔ options.index.HasKey schema tree) := by
  refine ⟨?mistake, ?allowed, ?key⟩
  case mistake =>
    intro error
    rw [forFilter, map_eq_error_iff]
    exact ⟨Plan.mistake_of_make, Plan.make_of_mistake⟩
  case allowed =>
    rw [← Plan.exists_make_eq_ok_iff]
    constructor
    · intro hexists
      obtain ⟨request, hrequest⟩ := hexists
      obtain ⟨plan, hplan, -⟩ := forFilter_eq_ok_iff.1 hrequest
      exact ⟨plan, hplan⟩
    · intro hexists
      obtain ⟨plan, hplan⟩ := hexists
      exact ⟨_, forFilter_eq_ok_iff.2 ⟨plan, hplan, rfl⟩⟩
  case key =>
    intro request hrequest
    obtain ⟨plan, hplan, rfl⟩ := forFilter_eq_ok_iff.1 hrequest
    obtain ⟨_, resolution, hresolve, _⟩ := Plan.make_eq_ok_iff.1 hplan
    rw [Index.hasKey_iff_of_resolve hresolve]
    exact (Plan.keyFits hplan hresolve).present

/-- An order without a key condition goes before a text that is no path, not the other way. -/
example :
    forFilter Example.schema [] ⟨.automatic, none, false, some .ascending, ["a..b"], false, none⟩ =
      .error (.usage .scanOrdering) :=
  rfl

end Request

end IndexedSearch
