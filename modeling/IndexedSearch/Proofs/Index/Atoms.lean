import IndexedSearch.Proofs.Filter.Related
import IndexedSearch.Proofs.Index.Rearranged

/-!
# Keys and atoms

Of the conditions of a filter, nothing but their places and their atoms counts for the choice of an
index and for its key. Two filters with the same atoms have the same index chosen for them, and the
same atoms at the same places in its key.
-/

namespace IndexedSearch.Index

open Expression (Resolved)
open IndexedSearch.Filter (Clause Position Term)

/-- A condition as the store sees it, with its place. -/
def placedAtom (schema : Schema) (term : Term) : Position × Resolved :=
  (term.position, Resolved.ofClause schema term.clause)

/-- The filter with its atoms. -/
def atomTree (schema : Schema) (tree : Filter.Tree Clause) : Filter.Tree Resolved :=
  tree.mapLeaves (Resolved.ofClause schema)

/-- The first of the atoms on an attribute, if keys allow all of them. -/
def keyAtom? (atoms : List (Position × Resolved)) (name : String) : Option (Position × Resolved) :=
  let onAttribute := atoms.filter fun (_, atom) ↦ atom.path = [name]
  if onAttribute.all fun (_, atom) ↦ atom.operator.isKeyEligible then onAttribute.head? else none

variable {schema : Schema} {tree first second : Filter.Tree Clause}

theorem isOnAttribute_eq (schema : Schema) (name : String) (clause : Clause) :
    isOnAttribute schema name clause =
      decide ((Resolved.ofClause schema clause).path = [name]) := by
  apply Bool.eq_iff_iff.2
  rw [isOnAttribute_iff, decide_eq_true_iff, Resolved.ofClause, Expression.physicalPath,
    List.cons.injEq]
  exact ⟨fun h ↦ ⟨h.stored, h.whole⟩, fun h ↦ ⟨h.2, h.1⟩⟩

theorem map_keyTerm? (schema : Schema) (terms : List Term) (name : String) :
    (keyTerm? schema terms name).map (placedAtom schema) =
      keyAtom? (terms.map (placedAtom schema)) name := by
  have hon : (terms.map (placedAtom schema)).filter (fun (_, atom) ↦ atom.path = [name]) =
      (terms.filter fun term ↦ isOnAttribute schema name term.clause).map (placedAtom schema) := by
    rw [List.filter_map]
    simp only [isOnAttribute_eq]
    rfl
  rw [keyTerm?, keyAtom?, hon, List.all_map, List.head?_map, apply_ite (Option.map _)]
  rfl

theorem map_placedAtom_terms (schema : Schema) (tree : Filter.Tree Clause) :
    tree.terms.map (placedAtom schema) = (atomTree schema tree).placed :=
  tree.map_terms (Resolved.ofClause schema)

/-! ## Filters with the same atoms -/

/-- The same key conditions as the store sees them. -/
structure KeyTerms.SameAtoms (schema : Schema) (keys others : KeyTerms) : Prop where
  hash : keys.hash.map (placedAtom schema) = others.hash.map (placedAtom schema)
  range : keys.range.map (placedAtom schema) = others.range.map (placedAtom schema)

namespace KeyTerms.SameAtoms

variable {keys others : KeyTerms}

theorem suffice_eq (h : KeyTerms.SameAtoms schema keys others) (descriptor : Descriptor) :
    keys.suffice descriptor = others.suffice descriptor := by
  have hhash := congrArg Option.isSome h.hash
  have hrange := congrArg Option.isSome h.range
  rw [Option.isSome_map, Option.isSome_map] at hhash hrange
  rw [suffice, suffice, hhash, hrange]

theorem map_keyConditions_eq (h : KeyTerms.SameAtoms schema keys others) :
    (Plan.keyConditions keys).map (placedAtom schema) =
      (Plan.keyConditions others).map (placedAtom schema) := by
  have hconditions (keys : KeyTerms) : (Plan.keyConditions keys).map (placedAtom schema) =
      match keys.hash.map (placedAtom schema) with
      | .none => []
      | .some hash => hash :: (keys.range.map (placedAtom schema)).toList := by
    unfold Plan.keyConditions
    cases keys.hash with
    | none => rfl
    | some hash => rw [List.map_cons, Option.toList_map, Option.map_some]
  rw [hconditions, hconditions, h.hash, h.range]

end KeyTerms.SameAtoms

theorem sameAtoms_keyTerms (h : atomTree schema first = atomTree schema second)
    (descriptor : Descriptor) :
    KeyTerms.SameAtoms schema (keyTerms schema first descriptor)
      (keyTerms schema second descriptor) := by
  have hterms : first.terms.map (placedAtom schema) = second.terms.map (placedAtom schema) := by
    rw [map_placedAtom_terms, map_placedAtom_terms, h]
  constructor
  · rw [keyTerms, keyTerms, map_keyTerm?, map_keyTerm?, hterms]
  · rw [keyTerms, keyTerms, Option.map_bind, Option.map_bind]
    simp only [Function.comp_def, map_keyTerm?, hterms]

theorem isUsable_iff_of_atomTree_eq (h : atomTree schema first = atomTree schema second)
    (descriptor : Descriptor) :
    IsUsable schema first descriptor ↔ IsUsable schema second descriptor := by
  rw [← suffice_iff_isUsable, ← suffice_iff_isUsable,
    (sameAtoms_keyTerms h descriptor).suffice_eq descriptor]

/-- The same index is found for both filters, or the same error. -/
theorem map_descriptor_resolve_eq (h : atomTree schema first = atomTree schema second)
    (choice : Choice) :
    (choice.resolve schema first).map Resolution.descriptor =
      (choice.resolve schema second).map Resolution.descriptor := by
  cases choice with
  | automatic =>
    have hresolve (tree : Filter.Tree Clause) :
        (Choice.automatic.resolve schema tree).map Resolution.descriptor =
          .ok ((select? schema tree).map Selection.descriptor) := by
      rw [Choice.resolve]
      split
      · rename_i selection hselection
        rw [hselection]
        rfl
      · rename_i hnone
        rw [hnone]
        rfl
    rw [hresolve, hresolve, map_descriptor_select?_congr (isUsable_iff_of_atomTree_eq h)]
  | named name =>
    rw [Choice.resolve, Choice.resolve]
    cases Descriptor.named schema name with
    | error error => rfl
    | ok descriptor => rfl
  | given descriptor => rfl

/-- What a plan takes from following a choice: the index and the conditions for its key. -/
def Resolution.route (schema : Schema) (resolution : Resolution) :
    Option Descriptor × List (Position × Resolved) :=
  (resolution.descriptor, (Plan.keyConditions resolution.keys).map (placedAtom schema))

/-- The conditions of a filter for the key of an index, and none without an index. -/
def keyAtoms (schema : Schema) (tree : Filter.Tree Clause) (descriptor? : Option Descriptor) :
    List (Position × Resolved) :=
  (Plan.keyConditions ((descriptor?.map (keyTerms schema tree)).getD .none)).map
    (placedAtom schema)

theorem map_route_resolve (choice : Choice) :
    (choice.resolve schema tree).map (Resolution.route schema) =
      ((choice.resolve schema tree).map Resolution.descriptor).map fun descriptor? ↦
        (descriptor?, keyAtoms schema tree descriptor?) := by
  cases hresolve : choice.resolve schema tree with
  | error error => rfl
  | ok resolution =>
    have hroute : resolution.route schema =
        (resolution.descriptor, keyAtoms schema tree resolution.descriptor) := by
      rw [Resolution.route, keyAtoms, keys_of_resolve hresolve]
    exact congrArg Except.ok hroute

theorem keyAtoms_eq (h : atomTree schema first = atomTree schema second) :
    keyAtoms schema first = keyAtoms schema second := by
  funext descriptor?
  cases descriptor? with
  | none => rfl
  | some descriptor => exact (sameAtoms_keyTerms h descriptor).map_keyConditions_eq

/-- Following a choice leads to the same for both filters. -/
theorem map_route_resolve_eq (h : atomTree schema first = atomTree schema second)
    (choice : Choice) :
    (choice.resolve schema first).map (Resolution.route schema) =
      (choice.resolve schema second).map (Resolution.route schema) := by
  rw [map_route_resolve, map_route_resolve, map_descriptor_resolve_eq h, keyAtoms_eq h]

end IndexedSearch.Index
