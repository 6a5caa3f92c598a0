import IndexedSearch.Proofs.Index.Naming

/-!
# Two conditions for a key

The conditions on the hash and on the range attribute of an index are looked for independently of
each other. Where both are found, they are one and the same just if the two attributes are. A schema
separates its keys if no index of it has an attribute twice; then the two conditions are different
for every index that is selected or named. That a schema is accepted does not mean that it separates
its keys.
-/

namespace IndexedSearch

/-- Neither the table nor an index of it has one attribute as its hash and its range attribute. -/
structure Schema.SeparatesKeys (schema : Schema) : Prop where
  table : ∀ range ∈ schema.key.range, schema.key.hash ≠ range
  globalIndex : ∀ index ∈ schema.globalIndexes, ∀ range ∈ index.range, index.hash ≠ range
  localIndex : ∀ index ∈ schema.localIndexes, schema.key.hash ≠ index.range

namespace Index

open IndexedSearch.Filter (Clause Term)

variable {schema : Schema} {tree : Filter.Tree Clause} {descriptor : Descriptor} {rank : Rank}
  {choice : Choice} {resolution : Resolution} {first second : Term}

/-! ## The attributes of an index -/

/-- The hash attribute of the index is not its range attribute. -/
def Descriptor.IsSeparate (descriptor : Descriptor) : Prop :=
  ∀ range ∈ descriptor.range, descriptor.hash ≠ range

theorem isSeparate_global (h : schema.SeparatesKeys) {index : GlobalIndex}
    (hindex : index ∈ schema.globalIndexes) : (Descriptor.global index).IsSeparate :=
  h.globalIndex index hindex

theorem isSeparate_localIndex (h : schema.SeparatesKeys) {index : LocalIndex}
    (hindex : index ∈ schema.localIndexes) : (Descriptor.localIndex schema index).IsSeparate := by
  intro range hrange
  cases hrange
  exact h.localIndex index hindex

theorem Offers.isSeparate (h : schema.SeparatesKeys) (hoffers : Offers schema rank descriptor) :
    descriptor.IsSeparate := by
  cases hoffers with
  | primary => exact h.table
  | global hindex => exact isSeparate_global h (List.mem_of_getElem? hindex)
  | localIndex hindex => exact isSeparate_localIndex h (List.mem_of_getElem? hindex)

theorem isSeparate_of_named (h : schema.SeparatesKeys) {name : String}
    (hnamed : Descriptor.named schema name = .ok descriptor) : descriptor.IsSeparate := by
  rw [Descriptor.named] at hnamed
  split at hnamed
  · rename_i index hindex
    cases hnamed
    exact isSeparate_global h (List.mem_of_find?_eq_some hindex)
  · split at hnamed
    · rename_i index hindex
      cases hnamed
      exact isSeparate_localIndex h (List.mem_of_find?_eq_some hindex)
    · cases hnamed

/-- In a schema that separates its keys, only the caller can bring in an index that does not. -/
theorem isSeparate_of_resolve (h : schema.SeparatesKeys)
    (hresolve : choice.resolve schema tree = .ok resolution)
    (hdescriptor : descriptor ∈ resolution.descriptor) (hchoice : choice ≠ .given descriptor) :
    descriptor.IsSeparate := by
  cases choice with
  | automatic =>
    rw [descriptor_of_resolve_automatic hresolve] at hdescriptor
    obtain ⟨selection, hselect, rfl⟩ := Option.map_eq_some_iff.1 hdescriptor
    obtain ⟨rank, hoffers, -⟩ := exists_offers_of_select? hselect
    exact hoffers.isSeparate h
  | named name =>
    obtain ⟨found, hnamed, hfound⟩ := bind_eq_ok_iff.1 hresolve
    cases hfound
    cases hdescriptor
    exact isSeparate_of_named h hnamed
  | given other =>
    cases hresolve
    cases hdescriptor
    exact absurd rfl hchoice

/-! ## The conditions on them -/

/--
The two terms are what is found for the key of the index: the first condition on its hash attribute
and the first one on its range attribute. They stand at one place just if the attributes are one.
-/
structure FindsBoth (schema : Schema) (tree : Filter.Tree Clause) (descriptor : Descriptor)
    (range : String) (first second : Term) : Prop where
  isRange : range ∈ descriptor.range
  onHash : IsFirstOn schema tree descriptor.hash first
  onRange : IsFirstOn schema tree range second
  same : first.position = second.position ↔ descriptor.hash = range

theorem findsBoth_of_keyTerms (hfirst : first ∈ (keyTerms schema tree descriptor).hash)
    (hsecond : second ∈ (keyTerms schema tree descriptor).range) :
    ∃ range, FindsBoth schema tree descriptor range first second := by
  obtain ⟨range, hrange, hterm⟩ := Option.bind_eq_some_iff.1 hsecond
  have honHash := (keyTerm?_eq_some_iff.1 hfirst).2.2
  have honRange := (keyTerm?_eq_some_iff.1 hterm).2.2
  refine ⟨range, hrange, honHash, honRange, ?_⟩
  constructor
  · intro hposition
    have hat := honHash.hasAt
    rw [hposition] at hat
    have hclause := hat.unique honRange.hasAt
    rw [← honHash.isOn.stored, ← honRange.isOn.stored, hclause]
  · intro hattribute
    have hboth : keyTerm? schema tree.terms range = some first := hattribute ▸ hfirst
    rw [Option.some.inj (hboth.symm.trans hterm)]

/-- Whatever the choice, two terms that are found are those of the index found. -/
theorem exists_findsBoth_of_resolve (hresolve : choice.resolve schema tree = .ok resolution)
    (hfirst : first ∈ resolution.keys.hash) (hsecond : second ∈ resolution.keys.range) :
    ∃ descriptor ∈ resolution.descriptor, ∃ range,
      FindsBoth schema tree descriptor range first second := by
  rw [keys_of_resolve hresolve] at hfirst hsecond
  cases hdescriptor : resolution.descriptor with
  | none =>
    rw [hdescriptor] at hfirst
    cases hfirst
  | some descriptor =>
    rw [hdescriptor] at hfirst hsecond
    exact ⟨descriptor, rfl, findsBoth_of_keyTerms hfirst hsecond⟩

/-! ## One condition for both -/

namespace KeyTerms

variable {keys : KeyTerms}

/-- The condition that was found for both attributes of a key. -/
def shared? (keys : KeyTerms) : Option Term :=
  keys.hash.filter fun first ↦ keys.range.any fun second ↦ first.position = second.position

theorem shared?_eq_none_iff :
    keys.shared? = .none ↔
      ∀ first ∈ keys.hash, ∀ second ∈ keys.range, first.position ≠ second.position := by
  rcases keys with ⟨hash, range⟩
  cases hash <;> cases range <;> simp [shared?]

end KeyTerms

end Index

end IndexedSearch
