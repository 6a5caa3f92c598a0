import IndexedSearch.Proofs.Index.Usable
import IndexedSearch.Request.Plan

/-!
# The key of an index

If a filter without markers keys the hash attribute of an index, the key is the first condition on
that attribute and, if the filter keys the range attribute, too, the first condition on that one. It
does not matter whether the index was selected, or named or given by the caller: a range attribute
without conditions, or with one that keys do not allow, leaves the condition on the hash attribute
alone, and without a condition on the hash attribute there is no key at all.
-/

namespace IndexedSearch

theorem Filter.Operator.isKeyEligible_iff {operator : Filter.Operator} :
    operator.isKeyEligible = true ↔
      operator ∈ [.eq, .lt, .le, .gt, .ge, .between, .beginsWith] := by
  cases operator <;> decide

namespace Index

open Expression (Resolved)
open IndexedSearch.Filter (Clause Term)

/-- A condition with the attribute that it is used for. -/
structure KeyPart where
  name : String
  term : Term

/-- The condition, on the attribute as a whole. -/
def KeyPart.atom (part : KeyPart) : Resolved :=
  { path := [part.name]
    operator := part.term.clause.condition.operator
    operands := part.term.clause.condition.operands.map Wire.Value.ofDocument }

/-- A filter without markers keys the hash attribute of an index. -/
structure KeysHash (schema : Schema) (tree : Filter.Tree Clause) (descriptor : Descriptor) :
    Prop where
  unmarked : tree.hasOr = false
  hash : IsKeyed schema tree descriptor.hash

/--
The key of an index whose hash attribute the filter keys: the first condition on that, and the first
one on the range attribute just if the filter keys the range attribute, too.
-/
inductive IsKey (schema : Schema) (tree : Filter.Tree Clause) (descriptor : Descriptor) :
    List KeyPart → Prop
  | hash {first : Term} (h : KeysHash schema tree descriptor)
    (hfirst : IsFirstOn schema tree descriptor.hash first)
    (halone : ∀ range ∈ descriptor.range, ¬ IsKeyed schema tree range) :
    IsKey schema tree descriptor [⟨descriptor.hash, first⟩]
  | both {range : String} {first second : Term} (h : KeysHash schema tree descriptor)
    (hfirst : IsFirstOn schema tree descriptor.hash first)
    (hrange : range ∈ descriptor.range) (hboth : IsKeyed schema tree range)
    (hsecond : IsFirstOn schema tree range second) :
    IsKey schema tree descriptor [⟨descriptor.hash, first⟩, ⟨range, second⟩]

variable {schema : Schema} {tree : Filter.Tree Clause} {descriptor : Descriptor}
  {key : List KeyPart}

namespace IsKey

theorem keysHash (h : IsKey schema tree descriptor key) : KeysHash schema tree descriptor := by
  cases h with
  | hash h => exact h
  | both h => exact h

theorem ne_nil (h : IsKey schema tree descriptor key) : key ≠ [] := by
  cases h <;> exact List.cons_ne_nil _ _

/-- Every condition of a key is the first one on its attribute, and the filter keys that. -/
theorem isFirstOn_and_isKeyed (h : IsKey schema tree descriptor key) :
    ∀ part ∈ key, IsFirstOn schema tree part.name part.term ∧ IsKeyed schema tree part.name := by
  cases h with
  | hash h hfirst =>
    intro part hpart
    cases List.mem_singleton.1 hpart
    exact ⟨hfirst, h.hash⟩
  | both h hfirst _ hboth hsecond =>
    intro part hpart
    rcases List.mem_cons.1 hpart with rfl | hpart
    · exact ⟨hfirst, h.hash⟩
    · cases List.mem_singleton.1 hpart
      exact ⟨hsecond, hboth⟩

end IsKey

/-- The first condition on an attribute is the atom of its clause. -/
theorem IsFirstOn.ofClause_eq {name : String} {term : Term}
    (h : IsFirstOn schema tree name term) :
    Resolved.ofClause schema term.clause = KeyPart.atom ⟨name, term⟩ := by
  unfold Resolved.ofClause Expression.physicalPath KeyPart.atom
  rw [h.isOn.stored, h.isOn.whole]

/-- The conditions of a key stand in groups of the outermost level, each on a whole attribute and
with an operator that keys allow. -/
theorem IsKey.exists_hasAt (h : IsKey schema tree descriptor key) :
    ∀ part ∈ key, ∃ position clause, tree.HasAt position clause ∧
      Resolved.ofClause schema clause = part.atom ∧ clause.path.inner = [] ∧
        clause.condition.operator ∈ [.eq, .lt, .le, .gt, .ge, .between, .beginsWith] := by
  intro part hpart
  obtain ⟨hfirst, hkeyed⟩ := h.isFirstOn_and_isKeyed part hpart
  have heligible := hkeyed.eligible _ _ hfirst.hasAt hfirst.isOn
  exact ⟨part.term.position, part.term.clause, hfirst.hasAt, hfirst.ofClause_eq,
    hfirst.isOn.whole, Filter.Operator.isKeyEligible_iff.1 heligible⟩

/-- If the filter keys the hash attribute of an index, what is found for the index is a key. -/
theorem KeysHash.exists_isKey (h : KeysHash schema tree descriptor) :
    ∃ key, IsKey schema tree descriptor key ∧
      Plan.keyConditions (keyTerms schema tree descriptor) = key.map KeyPart.term := by
  obtain ⟨first, hhash, hfirst⟩ := h.hash.exists_keyTerm? h.unmarked
  unfold Plan.keyConditions keyTerms
  rw [hhash]
  by_cases hboth : ∃ range ∈ descriptor.range, IsKeyed schema tree range
  · obtain ⟨range, hrange, hkeyed⟩ := hboth
    obtain ⟨second, hterm, hsecond⟩ := hkeyed.exists_keyTerm? h.unmarked
    refine ⟨_, .both h hfirst hrange hkeyed hsecond, ?_⟩
    rw [Option.mem_def.1 hrange, Option.bind_some, hterm]
    rfl
  · have halone : ∀ range ∈ descriptor.range, ¬ IsKeyed schema tree range := by
      intro range hrange hkeyed
      exact hboth ⟨range, hrange, hkeyed⟩
    have hnone : (descriptor.range.bind fun range ↦ keyTerm? schema tree.terms range) = none := by
      apply Option.bind_eq_none_iff.2
      intro range hrange
      apply keyTerm?_eq_none_iff.2
      exact fun hfound ↦ halone range hrange hfound.2
    refine ⟨_, .hash h hfirst halone, ?_⟩
    rw [hnone]
    rfl

/-- Otherwise nothing that is found for the index is used. -/
theorem keyConditions_keyTerms_eq_nil (h : ¬ KeysHash schema tree descriptor) :
    Plan.keyConditions (keyTerms schema tree descriptor) = [] := by
  have hnone : keyTerm? schema tree.terms descriptor.hash = none := by
    apply keyTerm?_eq_none_iff.2
    exact fun hfound ↦ h ⟨hfound.1, hfound.2⟩
  unfold Plan.keyConditions keyTerms
  rw [hnone]

/-- The conditions of a choice that can be followed are a key of the index found, or there are none
as no index was found or the filter does not key its hash attribute. -/
theorem keyConditions_of_resolve {choice : Choice} {resolution : Resolution}
    (h : choice.resolve schema tree = .ok resolution) :
    (∃ descriptor ∈ resolution.descriptor, ∃ key, IsKey schema tree descriptor key ∧
        Plan.keyConditions resolution.keys = key.map KeyPart.term) ∨
      (∀ descriptor ∈ resolution.descriptor, ¬ KeysHash schema tree descriptor) ∧
        Plan.keyConditions resolution.keys = [] := by
  rw [keys_of_resolve h]
  cases resolution.descriptor with
  | none => exact .inr ⟨nofun, rfl⟩
  | some descriptor =>
    by_cases hkeys : KeysHash schema tree descriptor
    · exact .inl ⟨descriptor, rfl, hkeys.exists_isKey⟩
    · refine .inr ⟨?_, keyConditions_keyTerms_eq_nil hkeys⟩
      intro other hother
      cases hother
      exact hkeys

end Index

end IndexedSearch
