import IndexedSearch.Proofs.Filter.Places
import IndexedSearch.Proofs.Index.KeyTerms
import Mathlib.Order.Bounds.Basic

/-!
# Which indexes a filter can use

A filter keys an attribute if some condition in a group of its outermost level is on the attribute
as a whole and keys allow all conditions that are. It can use an index if it has no marker at its
outermost level and keys the hash attribute and, where there is one, the range attribute of the
index. The conditions that are found for the key are the first ones on these attributes.
-/

namespace IndexedSearch.Index

open IndexedSearch.Filter (Clause Position Term)

/-- The clause is on an attribute as a whole, and the attribute is stored under the name. -/
structure IsOn (schema : Schema) (name : String) (clause : Clause) : Prop where
  whole : clause.path.inner = []
  stored : schema.physicalName clause.path.root = name

/-- The places of the conditions on an attribute. -/
def placesOn (schema : Schema) (tree : Filter.Tree Clause) (name : String) : Set Position :=
  {position | ∃ clause, tree.HasAt position clause ∧ IsOn schema name clause}

/-- There is a condition on the attribute, and keys allow every condition on it. -/
structure IsKeyed (schema : Schema) (tree : Filter.Tree Clause) (name : String) : Prop where
  nonempty : (placesOn schema tree name).Nonempty
  eligible : ∀ position clause, tree.HasAt position clause → IsOn schema name clause →
    clause.condition.isKeyEligible = true

/-- The filter can use the index. -/
structure IsUsable (schema : Schema) (tree : Filter.Tree Clause) (descriptor : Descriptor) :
    Prop where
  unmarked : tree.hasOr = false
  hash : IsKeyed schema tree descriptor.hash
  range : ∀ range ∈ descriptor.range, IsKeyed schema tree range

/-- The term is the first condition on the attribute. -/
structure IsFirstOn (schema : Schema) (tree : Filter.Tree Clause) (name : String) (term : Term) :
    Prop where
  least : IsLeast (placesOn schema tree name) term.position
  hasAt : tree.HasAt term.position term.clause

variable {schema : Schema} {tree : Filter.Tree Clause} {name : String} {term : Term}

theorem isOnAttribute_iff {clause : Clause} :
    isOnAttribute schema name clause = true ↔ IsOn schema name clause := by
  unfold isOnAttribute Filter.Path.isTopLevel
  rw [Bool.and_eq_true, List.isEmpty_iff, decide_eq_true_iff]
  constructor
  · intro h
    exact ⟨h.1, h.2⟩
  · intro h
    exact ⟨h.whole, h.stored⟩

/-- The first condition on an attribute is one on the attribute. -/
theorem IsFirstOn.isOn (h : IsFirstOn schema tree name term) : IsOn schema name term.clause := by
  obtain ⟨clause, hclause, hon⟩ := h.least.1
  rwa [h.hasAt.unique hclause]

/-! ## One attribute -/

/-- The conditions on an attribute, in reading order. -/
def termsOn (schema : Schema) (tree : Filter.Tree Clause) (name : String) : List Term :=
  tree.terms.filter fun term ↦ isOnAttribute schema name term.clause

theorem mem_termsOn_iff :
    term ∈ termsOn schema tree name ↔
      tree.hasOr = false ∧ tree.HasAt term.position term.clause ∧
        IsOn schema name term.clause := by
  unfold termsOn
  rw [List.mem_filter, Filter.Tree.mem_terms_iff_hasAt, isOnAttribute_iff, and_assoc]

/-- In reading order, the first term is the one with the least place. -/
theorem head?_eq_some_iff_least {terms : List Term}
    (h : terms.Pairwise fun first second ↦ first.position < second.position) :
    terms.head? = some term ↔
      term ∈ terms ∧ ∀ other ∈ terms, term.position ≤ other.position := by
  cases terms with
  | nil => exact iff_of_false nofun fun hleast ↦ List.not_mem_nil hleast.1
  | cons first rest =>
    have hrest := (List.pairwise_cons.1 h).1
    constructor
    · intro hhead
      cases hhead
      refine ⟨List.mem_cons_self, ?_⟩
      intro other hother
      rcases List.mem_cons.1 hother with rfl | hother
      · exact le_rfl
      · exact (hrest other hother).le
    · intro hleast
      rcases List.mem_cons.1 hleast.1 with rfl | hmem
      · rfl
      · exact absurd (hleast.2 first List.mem_cons_self) (hrest term hmem).not_ge

/-- Without markers, the first of the conditions on an attribute is the one with the least place. -/
theorem head?_termsOn_iff :
    (termsOn schema tree name).head? = some term ↔
      tree.hasOr = false ∧ IsFirstOn schema tree name term := by
  have hsorted := (Filter.Tree.pairwise_terms tree).filter fun term ↦
    isOnAttribute schema name term.clause
  rw [termsOn, head?_eq_some_iff_least hsorted, ← termsOn]
  constructor
  · intro h
    obtain ⟨hor, hat, hon⟩ := mem_termsOn_iff.1 h.1
    refine ⟨hor, ⟨⟨term.clause, hat, hon⟩, ?_⟩, hat⟩
    intro position hposition
    obtain ⟨clause, hclause, hother⟩ := hposition
    exact h.2 ⟨position, clause⟩ (mem_termsOn_iff.2 ⟨hor, hclause, hother⟩)
  · intro h
    obtain ⟨hor, hfirst⟩ := h
    refine ⟨mem_termsOn_iff.2 ⟨hor, hfirst.hasAt, hfirst.isOn⟩, ?_⟩
    intro other hother
    obtain ⟨-, hat, hon⟩ := mem_termsOn_iff.1 hother
    exact hfirst.least.2 ⟨other.clause, hat, hon⟩

/-- Keys allow every condition that is listed for a keyed attribute. -/
theorem IsKeyed.keyTerm?_eq_head? (h : IsKeyed schema tree name) :
    keyTerm? schema tree.terms name = (termsOn schema tree name).head? := by
  rw [keyTerm?, if_pos]
  · rfl
  · apply List.all_eq_true.2
    intro term hterm
    obtain ⟨-, hat, hon⟩ := mem_termsOn_iff.1 hterm
    exact h.eligible term.position term.clause hat hon

theorem isKeyed_of_keyTerm? (h : keyTerm? schema tree.terms name = some term) :
    IsKeyed schema tree name := by
  rw [keyTerm?] at h
  split at h
  · rename_i hall
    obtain ⟨hor, hat, hon⟩ := mem_termsOn_iff.1 (List.mem_of_head? h)
    refine ⟨⟨term.position, term.clause, hat, hon⟩, ?_⟩
    intro position clause hclause hother
    exact List.all_eq_true.1 hall ⟨position, clause⟩
      (mem_termsOn_iff.2 ⟨hor, hclause, hother⟩)
  · cases h

/-- The term that is found for an attribute is the first one, if the filter keys the attribute. -/
theorem keyTerm?_eq_some_iff :
    keyTerm? schema tree.terms name = some term ↔
      tree.hasOr = false ∧ IsKeyed schema tree name ∧ IsFirstOn schema tree name term := by
  constructor
  · intro h
    have hkeyed := isKeyed_of_keyTerm? h
    rw [hkeyed.keyTerm?_eq_head?, head?_termsOn_iff] at h
    exact ⟨h.1, hkeyed, h.2⟩
  · intro h
    rw [h.2.1.keyTerm?_eq_head?, head?_termsOn_iff]
    exact ⟨h.1, h.2.2⟩

/-- A term is found for just the attributes that a filter without markers keys. -/
theorem isSome_keyTerm?_iff :
    (keyTerm? schema tree.terms name).isSome = true ↔
      tree.hasOr = false ∧ IsKeyed schema tree name := by
  constructor
  · intro h
    obtain ⟨term, hterm⟩ := Option.isSome_iff_exists.1 h
    obtain ⟨hor, hkeyed, -⟩ := keyTerm?_eq_some_iff.1 hterm
    exact ⟨hor, hkeyed⟩
  · intro h
    obtain ⟨hor, hkeyed⟩ := h
    obtain ⟨position, clause, hat, hon⟩ := hkeyed.nonempty
    have hmem : ⟨position, clause⟩ ∈ termsOn schema tree name :=
      mem_termsOn_iff.2 ⟨hor, hat, hon⟩
    rw [hkeyed.keyTerm?_eq_head?, List.isSome_head?]
    exact List.ne_nil_of_mem hmem

/-- In a filter without markers, the first condition on a keyed attribute is found. -/
theorem IsKeyed.exists_keyTerm? (h : IsKeyed schema tree name) (hunmarked : tree.hasOr = false) :
    ∃ term, keyTerm? schema tree.terms name = some term ∧ IsFirstOn schema tree name term := by
  have hsome := isSome_keyTerm?_iff.2 ⟨hunmarked, h⟩
  obtain ⟨term, hterm⟩ := Option.isSome_iff_exists.1 hsome
  exact ⟨term, hterm, (keyTerm?_eq_some_iff.1 hterm).2.2⟩

/-- Nothing is found for an attribute that a filter does not key. -/
theorem keyTerm?_eq_none_iff :
    keyTerm? schema tree.terms name = none ↔
      ¬ (tree.hasOr = false ∧ IsKeyed schema tree name) := by
  rw [← isSome_keyTerm?_iff, Option.not_isSome_iff_eq_none]

/-! ## The attributes of an index -/

variable {descriptor : Descriptor}

/-- The conditions that are found for the key of an index suffice just if the filter can use it. -/
theorem suffice_iff_isUsable :
    (keyTerms schema tree descriptor).suffice descriptor = true ↔
      IsUsable schema tree descriptor := by
  unfold KeyTerms.suffice keyTerms
  rw [Bool.and_eq_true, isSome_keyTerm?_iff]
  cases hrange : descriptor.range with
  | none =>
    rw [Option.isNone_none, Bool.true_or]
    constructor
    · intro h
      exact ⟨h.1.1, h.1.2, by simp [hrange]⟩
    · intro h
      exact ⟨⟨h.unmarked, h.hash⟩, rfl⟩
  | some range =>
    rw [Option.isNone_some, Bool.false_or, Option.bind_some, isSome_keyTerm?_iff]
    constructor
    · intro h
      exact ⟨h.1.1, h.1.2, by simpa [hrange] using h.2.2⟩
    · intro h
      exact ⟨⟨h.unmarked, h.hash⟩, h.unmarked, h.range range hrange⟩

/-- The conditions are the first ones on the key attributes of an index. -/
structure KeyTerms.AreFirst (keys : KeyTerms) (schema : Schema) (tree : Filter.Tree Clause)
    (descriptor : Descriptor) : Prop where
  hash : ∃ term ∈ keys.hash, IsFirstOn schema tree descriptor.hash term
  range : ∀ range ∈ descriptor.range, ∃ term ∈ keys.range, IsFirstOn schema tree range term
  absent : descriptor.range = .none → keys.range = .none

/-- What is found for the key of an index that the filter can use are the first conditions. -/
theorem IsUsable.areFirst_keyTerms (h : IsUsable schema tree descriptor) :
    (keyTerms schema tree descriptor).AreFirst schema tree descriptor := by
  unfold keyTerms
  constructor
  · exact h.hash.exists_keyTerm? h.unmarked
  · intro range hrange
    rw [Option.mem_def.1 hrange]
    exact (h.range range hrange).exists_keyTerm? h.unmarked
  · intro hnone
    rw [hnone]
    rfl

end IndexedSearch.Index
