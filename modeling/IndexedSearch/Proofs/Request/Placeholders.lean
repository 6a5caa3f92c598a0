import IndexedSearch.Proofs.Request.Reading
import Mathlib.Data.List.Nodup

/-!
# Placeholders are fresh, complete and in order

Read from left to right through the key condition, the filter expression and the projection, the
placeholders of names are `#n0`, `#n1` and so on, those of operands `:v0`, `:v1` and so on, each
written once. The tables of the request hold just these. It does not matter where the filter comes
from.
-/

namespace IndexedSearch

open Expression (Atom Counter Level Slot Token namePlaceholder valuePlaceholder scan)
open IndexedSearch.Filter (Clause)

/-- The tokens of the expressions of a request, in the order in which they are written. -/
def Request.tokens (request : Request) : List Token :=
  [request.keyCondition, request.filter, request.projection].flatMap fun text? ↦
    (text?.map scan).getD []

/-- The tokens of the conditions of a request: of its key condition and of its filter expression. -/
def Request.conditionTokens (request : Request) : List Token :=
  [request.keyCondition, request.filter].flatMap fun text? ↦ (text?.map scan).getD []

theorem Request.tokens_eq (request : Request) :
    request.tokens = request.conditionTokens ++ (request.projection.map scan).getD [] := by
  simp [tokens, conditionTokens]

namespace Expression

variable {ν ω : Type}

/-- The tokens of paths, with commas between them. -/
theorem scan_paths (paths : List (List Nat)) :
    scan (", ".intercalate (paths.map pathText)) =
      [Token.comma].intercalate (paths.map fun path ↦ pathTokens (path.map namePlaceholder)) := by
  rw [cuts_comma.scan_intercalate, List.map_map]
  congr 1
  apply List.map_congr_left
  intro path _
  exact scan_pathText path

/-- The placeholders of paths, with commas between them. -/
theorem filter_scan_paths (paths : List (List Nat)) :
    (scan (", ".intercalate (paths.map pathText))).filter Token.isPlaceholder =
      (paths.flatten.map namePlaceholder).map Token.name := by
  rw [scan_paths, filter_intercalate rfl, List.flatMap_map]
  simp only [filter_pathTokens]
  rw [List.map_map, List.map_flatten, List.flatMap_def]
  simp only [List.map_map]

/-- The placeholders of an expression that may be absent. -/
theorem filterMap_read?_scan_level? (slot : Slot) (counter : Counter)
    (level? : Option (Level (Atom ν ω))) :
    ((((level?.map (Level.number counter)).map Level.text).map scan).getD []).filterMap
        slot.read? =
      (List.range' (slot.next counter) (slot.count ((level?.map Level.atoms).getD []))).map
        slot.placeholder := by
  cases level? with
  | none => cases slot <;> rfl
  | some level => exact level.filterMap_read?_scan_text slot counter

end Expression

namespace Plan

variable (plan : Plan) (schema : Schema) (options : Options) (slot : Slot)

/-- How many names a projection has. It has no operands. -/
def projected : Nat :=
  match slot with
  | .name => plan.projection.flatten.length
  | .value => 0

/-- How many names or operands a plan has. -/
def total : Nat :=
  match slot with
  | .name => plan.names.length
  | .value => plan.values.length

theorem total_eq : plan.total slot = slot.count plan.atoms + plan.projected slot := by
  cases slot with
  | name => simp [total, names, Slot.count, projected]
  | value => simp [total, values, Slot.count, projected]

/-- The placeholders of a projection are numbered behind those of both expressions. -/
theorem filterMap_read?_projectionText? :
    ((plan.projectionText?.map scan).getD []).filterMap slot.read? =
      (List.range' (slot.next (Counter.start.after plan.atoms)) (plan.projected slot)).map
        slot.placeholder := by
  have hfilter : ((plan.projectionText?.map scan).getD []).filter Token.isPlaceholder =
      (plan.numberedProjection.flatten.map namePlaceholder).map Token.name := by
    unfold projectionText?
    split
    · rename_i hempty
      rw [numberedProjection, List.isEmpty_iff.1 hempty]
      rfl
    · exact Expression.filter_scan_paths plan.numberedProjection
  calc
    _ = (plan.numberedProjection.flatten.map namePlaceholder).filterMap fun name ↦
        slot.read? (Token.name name) := by
      rw [← Expression.filterMap_read?_filter, hfilter, List.filterMap_map]
      rfl
    _ = ((List.range' (Counter.start.after plan.atoms).name plan.projection.flatten.length).map
        namePlaceholder).filterMap fun name ↦ slot.read? (Token.name name) := by
      rw [numberedProjection, Expression.flatten_numberPaths]
    _ = _ := by
      cases slot with
      | name => exact List.filterMap_some
      | value => simp [Slot.read?, Token.value?, projected]

/-- The placeholders of both conditions, in the order in which they are written. -/
theorem filterMap_read?_conditionTokens :
    (plan.request schema options).conditionTokens.filterMap slot.read? =
      (List.range (slot.count plan.atoms)).map slot.placeholder := by
  have hkey := Expression.filterMap_read?_scan_level? slot Counter.start plan.key
  have hfilter := Expression.filterMap_read?_scan_level? slot (Counter.start.after plan.keyAtoms)
    plan.filter
  rw [Slot.next_after] at hfilter
  rw [Slot.next_start] at hkey hfilter
  calc
    _ = (((plan.request schema options).keyCondition.map scan).getD []).filterMap slot.read? ++
        (((plan.request schema options).filter.map scan).getD []).filterMap slot.read? := by
      rw [Request.conditionTokens, List.flatMap_cons, List.flatMap_cons, List.flatMap_nil,
        List.append_nil, List.filterMap_append]
    _ = (List.range' 0 (slot.count plan.keyAtoms)).map slot.placeholder ++
        (List.range' (0 + slot.count plan.keyAtoms) (slot.count plan.filterAtoms)).map
          slot.placeholder :=
      congr (congrArg _ hkey) hfilter
    _ = _ := by
      rw [← List.map_append, List.range'_append_1, ← Slot.count_append, ← atoms,
        List.range_eq_range']

/-- The placeholders of a request, in the order in which they are written. -/
theorem filterMap_read?_tokens :
    (plan.request schema options).tokens.filterMap slot.read? =
      (List.range (plan.total slot)).map slot.placeholder := by
  have hconditions := plan.filterMap_read?_conditionTokens schema options slot
  have hprojection := plan.filterMap_read?_projectionText? slot
  rw [List.range_eq_range'] at hconditions
  rw [Slot.next_after, Slot.next_start] at hprojection
  calc
    _ = (plan.request schema options).conditionTokens.filterMap slot.read? ++
        ((plan.projectionText?.map scan).getD []).filterMap slot.read? := by
      rw [Request.tokens_eq, List.filterMap_append]
      rfl
    _ = (List.range' 0 (slot.count plan.atoms)).map slot.placeholder ++
        (List.range' (0 + slot.count plan.atoms) (plan.projected slot)).map slot.placeholder :=
      congr (congrArg _ hconditions) hprojection
    _ = _ := by
      rw [← List.map_append, List.range'_append_1, ← total_eq, List.range_eq_range']

end Plan

/--
The placeholders that are met are those of the numbers from zero on, each of them once, and the
tables have an entry for each of them and no others.
-/
structure Request.HasFreshPlaceholders (request : Request) : Prop where
  names : request.tokens.filterMap Token.name? =
    (List.range request.names.length).map namePlaceholder
  values : request.tokens.filterMap Token.value? =
    (List.range request.values.length).map valuePlaceholder
  nodup_names : (request.tokens.filterMap Token.name?).Nodup
  nodup_values : (request.tokens.filterMap Token.value?).Nodup
  keys_names : (request.names.map Prod.fst).Perm (request.tokens.filterMap Token.name?)
  keys_values : (request.values.map Prod.fst).Perm (request.tokens.filterMap Token.value?)

/-- Placeholders are fresh, complete and in order, whatever the form of the filter. -/
theorem Request.hasFreshPlaceholders_forFilter {schema : Schema} {tree : Filter.Tree Clause}
    {options : Options} {request : Request}
    (hrequest : Request.forFilter schema tree options = .ok request) :
    request.HasFreshPlaceholders := by
  obtain ⟨plan, _, rfl⟩ := forFilter_eq_ok_iff.1 hrequest
  have hnames : (plan.request schema options).tokens.filterMap Token.name? =
      (List.range plan.names.length).map namePlaceholder :=
    plan.filterMap_read?_tokens schema options .name
  have hvalues : (plan.request schema options).tokens.filterMap Token.value? =
      (List.range plan.values.length).map valuePlaceholder :=
    plan.filterMap_read?_tokens schema options .value
  have hname := Expression.namePlaceholder_injective
  have hvalue := Expression.valuePlaceholder_injective
  constructor
  · rw [hnames, ← Plan.length_placeholderTable hname]
    rfl
  · rw [hvalues, ← Plan.length_placeholderTable hvalue]
    rfl
  · rw [hnames]
    exact List.Nodup.map hname List.nodup_range
  · rw [hvalues]
    exact List.Nodup.map hvalue List.nodup_range
  · rw [hnames]
    exact Plan.perm_keys_placeholderTable hname plan.names
  · rw [hvalues]
    exact Plan.perm_keys_placeholderTable hvalue plan.values

theorem Request.hasFreshPlaceholders_example :
    Request.forFilter Example.schema Example.tree Example.options = .ok Example.request ∧
      Example.request.HasFreshPlaceholders :=
  ⟨Example.forFilter_tree, Request.hasFreshPlaceholders_forFilter Example.forFilter_tree⟩

end IndexedSearch
