import IndexedSearch.Proofs.Index.Key
import IndexedSearch.Proofs.Request.Placeholders
import IndexedSearch.Proofs.Request.ReadBack

/-!
# The key condition of a request

A request has a key condition just if an index was found, the filter has no marker at its outermost
level, and the filter keys the hash attribute of the index. The key condition has the conditions of
the key of the index, the placeholders of its names stand for the attributes of the index, and no
other condition of the filter gets into it.
-/

namespace IndexedSearch

open Expression (Atom Counter Level Numbered Resolved Token namePlaceholder numberAtoms scan)
open IndexedSearch.Filter (Clause)

namespace Request

/-- The placeholders of names in the key condition, with the attributes that they stand for. -/
def keyBindings (request : Request) : List (String × Option String) :=
  (((request.keyCondition.map scan).getD []).filterMap Token.name?).map fun placeholder ↦
    (placeholder, request.names.get? placeholder)

/-- The text is made of the conditions of a key, and the store reads it as these. -/
structure HasKey (request : Request) (text : String) (key : List Index.KeyPart) : Prop where
  written : text = " AND ".intercalate
    ((numberAtoms Counter.start (key.map Index.KeyPart.atom)).map Numbered.text)
  bound : request.keyBindings = (key.map Index.KeyPart.name).zipIdx.map fun (name, number) ↦
    (namePlaceholder number, some name)
  read : request.expression? text = Level.conjunction? (key.map Index.KeyPart.atom)

theorem HasKey.atoms_eq {request : Request} {text : String} {key : List Index.KeyPart}
    {level : Level Resolved} (h : request.HasKey text key)
    (hlevel : level ∈ request.expression? text) : level.atoms = key.map Index.KeyPart.atom := by
  have hatoms := Level.atoms_conjunction? (key.map Index.KeyPart.atom)
  rwa [← h.read, Option.mem_def.1 hlevel, Option.map_some, Option.getD_some] at hatoms

/--
The key condition is sound for the index that was found. Only conditions in groups of the outermost
level get into it, and only if that has no marker, on whole attributes and with operators that keys
allow.
-/
structure KeyFits (request : Request) (schema : Schema) (tree : Filter.Tree Clause)
    (descriptor? : Option Index.Descriptor) : Prop where
  present : request.keyCondition.isSome = true ↔
    ∃ descriptor ∈ descriptor?, Index.KeysHash schema tree descriptor
  key : ∀ text ∈ request.keyCondition, ∃ descriptor ∈ descriptor?, ∃ key,
    Index.IsKey schema tree descriptor key ∧ request.HasKey text key
  reach : ∀ text ∈ request.keyCondition, ∀ level ∈ request.expression? text,
    ∀ atom ∈ level.atoms, tree.hasOr = false ∧ ∃ position clause,
      tree.HasAt position clause ∧ Resolved.ofClause schema clause = atom ∧
        clause.path.inner = [] ∧
        clause.condition.operator ∈ [.eq, .lt, .le, .gt, .ge, .between, .beginsWith]

end Request

namespace Plan

variable {schema : Schema} {tree : Filter.Tree Clause} {options : Options} {plan : Plan}
  {resolution : Index.Resolution}

/-- The placeholders of the key condition stand for the attributes of its conditions. -/
theorem keyBindings_request (plan : Plan) (schema : Schema) (options : Options) :
    (plan.request schema options).keyBindings =
      (plan.keyAtoms.flatMap Atom.path).zipIdx.map fun (name, number) ↦
        (namePlaceholder number, some name) := by
  have hplaceholders := Expression.filterMap_read?_scan_level? .name Counter.start plan.key
  have hnames := (Expression.hold_append.1 (plan.hold_atoms schema options)).1.names
  calc
    _ = ((List.range' 0 (plan.keyAtoms.flatMap Atom.path).length).map namePlaceholder).map
        fun placeholder ↦
          (placeholder, (plan.request schema options).names.get? placeholder) :=
      congrArg _ hplaceholders
    _ = _ := by
      rw [List.map_map]
      exact hnames.map_get?

/-- The key condition of a plan with a key has the conditions of the key. -/
theorem hasKey {key : List Index.KeyPart} {text : String}
    (hvalid : ∀ atom ∈ plan.atoms, atom.IsValid)
    (hkey : plan.key = Level.conjunction? (key.map Index.KeyPart.atom))
    (htext : text ∈ (plan.request schema options).keyCondition) :
    (plan.request schema options).HasKey text key := by
  obtain ⟨numbered, hnumbered, rfl⟩ := Option.map_eq_some_iff.1 htext
  obtain ⟨level, hlevel, rfl⟩ := Option.map_eq_some_iff.1 hnumbered
  constructor
  · exact Level.text_of_conjunction? (hkey ▸ hlevel)
  · have hnames : plan.keyAtoms.flatMap Atom.path = key.map Index.KeyPart.name := by
      rw [keyAtoms, hkey, Level.atoms_conjunction?, List.flatMap_map, List.map_eq_flatMap]
      rfl
    rw [keyBindings_request, hnames]
  · have hread := map_expression?_keyCondition schema options hvalid
    rw [Option.mem_def.1 htext, hlevel] at hread
    rw [← hkey, hlevel]
    exact Option.some.inj hread

/-- A plan with a key for an index has a key condition that is sound for the index. -/
theorem keyFits_of_isKey {descriptor? : Option Index.Descriptor} {descriptor : Index.Descriptor}
    {key : List Index.KeyPart} (hvalid : ∀ atom ∈ plan.atoms, atom.IsValid)
    (hdescriptor : descriptor ∈ descriptor?) (hkey : Index.IsKey schema tree descriptor key)
    (hatoms : plan.key = Level.conjunction? (key.map Index.KeyPart.atom)) :
    (plan.request schema options).KeyFits schema tree descriptor? := by
  constructor
  · refine iff_of_true ?_ ⟨descriptor, hdescriptor, hkey.keysHash⟩
    rw [request, numberedKey, Option.isSome_map, Option.isSome_map, hatoms,
      ← Option.ne_none_iff_isSome, ne_eq, Level.conjunction?_eq_none_iff, List.map_eq_nil_iff]
    exact hkey.ne_nil
  · intro text htext
    exact ⟨descriptor, hdescriptor, key, hkey, hasKey hvalid hatoms htext⟩
  · intro text htext level hlevel atom hatom
    rw [(hasKey hvalid hatoms htext).atoms_eq hlevel] at hatom
    obtain ⟨part, hpart, rfl⟩ := List.mem_map.1 hatom
    exact ⟨hkey.keysHash.unmarked, hkey.exists_hasAt part hpart⟩

/-- A plan without a key has no key condition, which is sound if the filter keys no hash attribute
of an index that was found. -/
theorem keyFits_of_key_eq_none {descriptor? : Option Index.Descriptor} (hkey : plan.key = none)
    (hnone : ∀ descriptor ∈ descriptor?, ¬ Index.KeysHash schema tree descriptor) :
    (plan.request schema options).KeyFits schema tree descriptor? := by
  have habsent : (plan.request schema options).keyCondition = none := by
    rw [request, numberedKey, hkey]
    rfl
  constructor
  · rw [habsent]
    apply iff_of_false Bool.false_ne_true
    intro hexists
    obtain ⟨descriptor, hdescriptor, hkeys⟩ := hexists
    exact hnone descriptor hdescriptor hkeys
  · intro text htext
    cases habsent.symm.trans htext
  · intro text htext
    cases habsent.symm.trans htext

/-- The key condition of the request of a plan is sound for the index that was found. -/
theorem keyFits (h : make schema tree options = .ok plan)
    (hresolve : options.index.resolve schema tree = .ok resolution) :
    (plan.request schema options).KeyFits schema tree resolution.descriptor := by
  have hplan := key_eq_conjunction? h hresolve
  rcases Index.keyConditions_of_resolve hresolve with
    ⟨descriptor, hdescriptor, key, hkey, hterms⟩ | ⟨hnone, hterms⟩
  · apply keyFits_of_isKey (isValid_of_mem_atoms h) hdescriptor hkey
    rw [hplan, hterms, List.map_map]
    apply congrArg
    apply List.map_congr_left
    intro part hpart
    exact (hkey.isFirstOn_and_isKeyed part hpart).1.ofClause_eq
  · apply keyFits_of_key_eq_none _ hnone
    rw [hplan, hterms]
    rfl

end Plan

namespace Request

variable {schema : Schema} {tree : Filter.Tree Clause} {options : Options} {request : Request}

/-- However the index is chosen, the key condition is sound for the index that was found. -/
theorem keyFits_forFilter (hrequest : Request.forFilter schema tree options = .ok request) :
    ∃ resolution, options.index.resolve schema tree = .ok resolution ∧
      request.KeyFits schema tree resolution.descriptor := by
  obtain ⟨plan, hplan, rfl⟩ := forFilter_eq_ok_iff.1 hrequest
  obtain ⟨_, resolution, hresolve, _⟩ := Plan.make_eq_ok_iff.1 hplan
  exact ⟨resolution, hresolve, Plan.keyFits hplan hresolve⟩

theorem keyFits_example :
    Request.forFilter Example.schema Example.tree Example.options = .ok Example.request ∧
      ∃ resolution, Example.options.index.resolve Example.schema Example.tree = .ok resolution ∧
        Example.request.KeyFits Example.schema Example.tree resolution.descriptor :=
  ⟨Example.forFilter_tree, keyFits_forFilter Example.forFilter_tree⟩

end Request

end IndexedSearch
