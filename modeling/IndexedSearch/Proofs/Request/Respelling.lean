import IndexedSearch.Proofs.Index.Atoms
import IndexedSearch.Proofs.Request.Projecting

/-!
# Two spellings of an attribute

A caller may write the property of an attribute or the name under which it is stored, as long as no
property has the stored name of another attribute. Whichever is written in a condition or among the
names to project, the request is the same, or the mistake is.
-/

namespace IndexedSearch

open Expression (Level Resolved physicalPath)
open IndexedSearch.Filter (Clause IsSegment Path)

/-! ## Plans and atoms -/

namespace Plan

variable {schema : Schema} {first second : Filter.Tree Clause} {options : Options}

/-- The mistake in the number of operands of an atom. -/
def atomError? (atom : Resolved) : Option UsageError :=
  if atom.operator.arity.admits atom.operands.length then none
  else some (.operandCount atom.operator atom.operands.length)

theorem operandError?_eq_findSome? (schema : Schema) (tree : Filter.Tree Clause) :
    tree.operandError? = (Index.atomTree schema tree).leaves.findSome? atomError? := by
  have herror : (fun clause : Clause ↦ clause.condition.operandError?) =
      atomError? ∘ Resolved.ofClause schema := by
    funext clause
    rw [Function.comp_apply, atomError?, Resolved.ofClause, List.length_map]
    rfl
  rw [Index.atomTree, Filter.Tree.leaves_mapLeaves, List.findSome?_map, ← herror]
  rfl

/-- The plan for atoms, once an index and the conditions for its key are found. -/
def ofRoute (schema : Schema) (options : Options) (atoms : Filter.Tree Resolved)
    (route : Option Index.Descriptor × List (Filter.Position × Resolved)) :
    Except SearchError Plan := do
  if route.2.isEmpty && options.order.isSome then throw (.usage .scanOrdering)
  let projection ← (projectionPaths schema options).mapError SearchError.usage
  return {
    index := route.1
    key := Level.conjunction? (route.2.map Prod.snd)
    filter := Level.ofTree? (atoms.without (route.2.map Prod.fst))
    projection }

/-- A plan is made from atoms. -/
theorem make_eq_ofRoute (schema : Schema) (tree : Filter.Tree Clause) (options : Options) :
    make schema tree options = (do
      if let some error := (Index.atomTree schema tree).leaves.findSome? atomError? then
        throw (.usage error)
      let route ← ((options.index.resolve schema tree).map
        (Index.Resolution.route schema)).mapError SearchError.schema
      ofRoute schema options (Index.atomTree schema tree) route) := by
  unfold make
  rw [operandError?_eq_findSome? schema]
  cases (Index.atomTree schema tree).leaves.findSome? atomError? with
  | some error => rfl
  | none =>
    cases options.index.resolve schema tree with
    | error error => rfl
    | ok resolution =>
      change _ = ofRoute schema options (Index.atomTree schema tree) (resolution.route schema)
      rw [ofRoute, Index.Resolution.route, Index.atomTree, List.isEmpty_map, List.map_map,
        List.map_map, ← Filter.Tree.mapLeaves_without]
      rfl

/-- Of the conditions of a filter, a plan depends on nothing but their atoms. -/
theorem make_eq_of_atomTree_eq (h : Index.atomTree schema first = Index.atomTree schema second) :
    make schema first options = make schema second options := by
  rw [make_eq_ofRoute, make_eq_ofRoute, h, Index.map_route_resolve_eq h]

end Plan

/-! ## Stored names -/

instance : DecidablePred IsSegment := fun segment ↦
  inferInstanceAs (Decidable (segment ≠ [] ∧ Filter.segmentSeparator ∉ segment))

/-- No property has the name under which another attribute is stored, and the stored names can stand
in paths. -/
structure Schema.SeparatesNames (schema : Schema) : Prop where
  apart : ∀ declared ∈ schema.attributes, ∀ other ∈ schema.attributes,
    declared.property = other.physicalName → declared = other
  segments : ∀ declared ∈ schema.attributes, IsSegment declared.physicalName.toList

namespace Schema.SeparatesNames

variable {schema : Schema}

/-- A stored name stands for itself. -/
theorem physicalName_physicalName (h : schema.SeparatesNames) (name : String) :
    schema.physicalName (schema.physicalName name) = schema.physicalName name := by
  cases hfound : schema.attributes.find? fun declared ↦ declared.property = name with
  | none =>
    have hname : schema.physicalName name = name := by rw [physicalName, hfound]
    rw [hname, hname]
  | some declared =>
    have hname : schema.physicalName name = declared.physicalName := by rw [physicalName, hfound]
    rw [hname, physicalName]
    split
    · rename_i other hother
      have hproperty := List.find?_some hother
      rw [decide_eq_true_iff] at hproperty
      rw [h.apart other (List.mem_of_find?_eq_some hother) declared
        (List.mem_of_find?_eq_some hfound) hproperty]
    · rfl

theorem isSegment_physicalName (h : schema.SeparatesNames) {name : String}
    (hname : IsSegment name.toList) : IsSegment (schema.physicalName name).toList := by
  rw [physicalName]
  split
  · rename_i declared hfound
    exact h.segments declared (List.mem_of_find?_eq_some hfound)
  · exact hname

end Schema.SeparatesNames

variable {schema : Schema}

namespace Filter

/-- The path with the stored name of its attribute. -/
def Path.stored (h : schema.SeparatesNames) (path : Path) : Path :=
  { path with
    root := schema.physicalName path.root
    wellFormed := by
      obtain ⟨hroot, hinner⟩ := List.forall_mem_cons.1 path.wellFormed
      exact List.forall_mem_cons.2 ⟨h.isSegment_physicalName hroot, hinner⟩ }

/-- The second condition is the first one, as it is or with the stored name of its attribute. -/
def Clause.IsRespelled (h : schema.SeparatesNames) (clause other : Clause) : Prop :=
  other = clause ∨ other = { clause with path := clause.path.stored h }

end Filter

/-- The second text is the first one, as it is or with the stored name of the attribute in it. -/
def IsRespelledName (h : schema.SeparatesNames) (name other : String) : Prop :=
  other = name ∨ ∃ path : Path, path.text = name ∧ (path.stored h).text = other

theorem physicalPath_stored (h : schema.SeparatesNames) (path : Path) :
    physicalPath schema (path.stored h) = physicalPath schema path := by
  rw [physicalPath, Path.stored, h.physicalName_physicalName]
  rfl

/-- Both spellings lead to the same attribute. -/
theorem Filter.Clause.IsRespelled.ofClause_eq {h : schema.SeparatesNames} {clause other : Clause}
    (hclause : clause.IsRespelled h other) :
    Resolved.ofClause schema clause = Resolved.ofClause schema other := by
  rcases hclause with rfl | rfl
  · rfl
  · rw [Resolved.ofClause, Resolved.ofClause, physicalPath_stored]

theorem IsRespelledName.map_parse_eq {h : schema.SeparatesNames} {name other : String}
    (hname : IsRespelledName h name other) :
    (Path.parse name).map (physicalPath schema) = (Path.parse other).map (physicalPath schema) := by
  rcases hname with rfl | ⟨path, rfl, rfl⟩
  · rfl
  · rw [Path.parse_text, Path.parse_text]
    exact congrArg Except.ok (physicalPath_stored h path).symm

/-- What is projected depends on the paths that the names are read as. -/
theorem Plan.projectionPaths_eq (schema : Schema) (options : Options) :
    projectionPaths schema options =
      if options.countOnly then .ok []
      else (options.projection.mapM fun name ↦
        (Path.parse name).map (physicalPath schema)).map List.eraseDups := by
  rw [projectionPaths, ← map_mapM]
  split
  · rfl
  · cases options.projection.mapM Path.parse with
    | error error => rfl
    | ok paths => rfl

theorem Plan.projectionPaths_eq_of_forall₂ {h : schema.SeparatesNames} {options : Options}
    {names : List String} (hnames : List.Forall₂ (IsRespelledName h) options.projection names) :
    projectionPaths schema { options with projection := names } =
      projectionPaths schema options := by
  have hread : (options.projection.mapM fun name ↦
      (Path.parse name).map (physicalPath schema)) =
        names.mapM fun name ↦ (Path.parse name).map (physicalPath schema) :=
    mapM_eq_of_forall₂ hnames fun _ _ hname ↦ hname.map_parse_eq
  rw [projectionPaths_eq, projectionPaths_eq, hread]

/-! ## Requests -/

/-- Stored names may be written instead of properties, in any of the conditions and of the names to
project. -/
theorem Request.forFilter_respelled (h : schema.SeparatesNames) {tree other : Filter.Tree Clause}
    {options : Options} {names : List String} (htree : tree.IsRelated (Clause.IsRespelled h) other)
    (hnames : List.Forall₂ (IsRespelledName h) options.projection names) :
    forFilter schema other { options with projection := names } =
      forFilter schema tree options := by
  have hatoms : Index.atomTree schema tree = Index.atomTree schema other :=
    htree.mapLeaves_eq fun _ _ hclause ↦ hclause.ofClause_eq
  rw [forFilter_congr_projection (Plan.projectionPaths_eq_of_forall₂ hnames), forFilter, forFilter,
    Plan.make_eq_of_atomTree_eq hatoms]

/-! ## An example -/

namespace Example

theorem separatesNames_catalog : catalog.SeparatesNames := by
  constructor
  · decide
  · decide

/-- The conditions of the example, with a stored name for a property. -/
def respelledSteps : List Filter.Step :=
  [.filterAll [("mail", .equality (.string "m1")), ("status", .equality (.string "open"))],
    .filter "total" (.gt (.bool true))]

def respelledTree : Filter.Tree Clause := (Filter.Tree.ofSteps respelledSteps).toOption.getD []

theorem isRelated_respelledTree :
    stateTree.IsRelated (Clause.IsRespelled separatesNames_catalog) respelledTree :=
  .cons (.group (.cons (.inl rfl) (.cons (.inr rfl) .nil)))
    (.cons (.group (.cons (.inl rfl) .nil)) .nil)

end Example

open Example in
theorem Request.forFilter_respelled_example :
    stateTree.IsRelated (Clause.IsRespelled separatesNames_catalog) respelledTree ∧
      List.Forall₂ (IsRespelledName separatesNames_catalog) ["state", "total", "status"]
        ["status", "total", "status"] ∧
      forFilter catalog respelledTree
        { projectingOptions with projection := ["status", "total", "status"] } =
          .ok projectingRequest := by
  have hnames : List.Forall₂ (IsRespelledName separatesNames_catalog) ["state", "total", "status"]
      ["status", "total", "status"] := by
    have hfirst : IsRespelledName separatesNames_catalog "state" "status" :=
      .inr ⟨⟨"state", [], by decide, by decide⟩, by decide +kernel, by decide +kernel⟩
    exact .cons hfirst (.cons (.inl rfl) (.cons (.inl rfl) .nil))
  refine ⟨isRelated_respelledTree, hnames, ?_⟩
  rw [← forFilter_projectingOptions]
  exact forFilter_respelled separatesNames_catalog isRelated_respelledTree hnames

end IndexedSearch
