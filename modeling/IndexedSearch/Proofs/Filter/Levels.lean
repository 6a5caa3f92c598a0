import IndexedSearch.Proofs.Filter.WellFormed

/-!
# Every level of a built filter

In a filter that steps have built, at its outermost level and at every level nested in it, markers
stand between entries, no group and no nested tree is empty, and every path has one to four segments
that are not empty and hold no dot.
-/

namespace IndexedSearch.Filter

variable {α : Type} {entry : Entry α} {entries level : List (Entry α)} {tree : Tree α}

/-- The levels of a tree: its own entries, and the levels of the trees nested in it. -/
inductive Tree.HasLevel : Tree α → List (Entry α) → Prop
  | outermost (tree : Tree α) : Tree.HasLevel tree tree
  | nested {tree : Tree α} {entries level : List (Entry α)} (h : .nested entries ∈ tree)
    (hlevel : Tree.HasLevel entries level) : Tree.HasLevel tree level

/-- The segments that a path may have. -/
structure Path.IsSound (path : Path) : Prop where
  one_le : 1 ≤ path.segments.length
  le_four : path.segments.length ≤ 4
  ne_empty : ∀ segment ∈ path.segments, segment ≠ ""
  no_dot : ∀ segment ∈ path.segments, '.' ∉ segment.toList

/-- The entries that a level may have. -/
structure IsTidy (level : List (Entry Clause)) : Prop where
  first : level.head? ≠ some .or
  last : level.getLast? ≠ some .or
  apart : ∀ i, level[i]? = some .or → level[i + 1]? ≠ some .or
  group : .group [] ∉ level
  nested : .nested [] ∉ level
  paths : ∀ conditions, .group conditions ∈ level → ∀ clause ∈ conditions, clause.path.IsSound

theorem Path.isSound (path : Path) : path.IsSound := by
  have hshort := path.short
  constructor
  · simp [segments]
  · simpa [segments, maxSegments, Nat.succ_le_iff] using hshort
  · intro segment hsegment hempty
    apply (path.wellFormed segment hsegment).1
    rw [hempty]
    rfl
  · intro segment hsegment
    exact (path.wellFormed segment hsegment).2

/-! ## One level -/

theorem Entry.IsProper.ne_or (h : entry.IsProper) : entry ≠ .or := by
  cases h with
  | group => nofun
  | nested => nofun

theorem IsLevel.ne_nil (h : IsLevel entries) : entries ≠ [] := by
  cases h with
  | single => exact List.cons_ne_nil _ _
  | and => exact List.cons_ne_nil _ _
  | or => exact List.cons_ne_nil _ _

theorem IsLevel.head?_ne_or (h : IsLevel entries) : entries.head? ≠ some .or := by
  cases h with
  | single h => exact fun hor ↦ h.ne_or (Option.some.inj hor)
  | and h => exact fun hor ↦ h.ne_or (Option.some.inj hor)
  | or h => exact fun hor ↦ h.ne_or (Option.some.inj hor)

theorem IsLevel.getLast?_ne_or (h : IsLevel entries) : entries.getLast? ≠ some .or := by
  obtain ⟨last, hlast, heq⟩ := h.getLast?_eq
  rw [heq]
  exact fun hor ↦ hlast.ne_or (Option.some.inj hor)

/-- What follows a marker in a level is no marker. -/
theorem IsLevel.getElem?_succ_ne_or :
    ∀ {entries : List (Entry α)}, IsLevel entries → ∀ i, entries[i]? = some .or →
      entries[i + 1]? ≠ some .or
  | _, .single h, 0, hor => absurd (Option.some.inj hor) h.ne_or
  | _, .and h _, 0, hor => absurd (Option.some.inj hor) h.ne_or
  | _, .and _ hrest, i + 1, hor => hrest.getElem?_succ_ne_or i hor
  | _, .or h _, 0, hor => absurd (Option.some.inj hor) h.ne_or
  -- A marker stands right behind the first entry only, and then a level begins behind it.
  | _, .or _ hrest, 1, _ => by
    rw [List.getElem?_cons_succ, List.getElem?_cons_succ, ← List.head?_eq_getElem?]
    exact hrest.head?_ne_or
  | _, .or _ hrest, i + 2, hor => hrest.getElem?_succ_ne_or i hor

theorem IsLevel.isTidy {entries : List (Entry Clause)} (h : IsLevel entries) : IsTidy entries := by
  constructor
  · exact h.head?_ne_or
  · exact h.getLast?_ne_or
  · exact h.getElem?_succ_ne_or
  · intro hmem
    cases h.isProper_of_mem hmem rfl with
    | group hne => exact hne rfl
  · intro hmem
    cases h.isProper_of_mem hmem rfl with
    | nested hlevel => exact hlevel.ne_nil rfl
  · intro _ _ clause _
    exact clause.path.isSound

/-! ## All levels -/

theorem Tree.IsWellFormed.isTidy {tree : Tree Clause} (h : tree.IsWellFormed) : IsTidy tree := by
  rcases h with rfl | h
  · constructor <;> simp
  · exact h.isTidy

/-- The levels of a well-formed tree are well formed. -/
theorem Tree.HasLevel.isWellFormed (hlevel : tree.HasLevel level) (h : tree.IsWellFormed) :
    IsWellFormed level := by
  -- On the way down to the level, the tree that is left stays well formed.
  induction hlevel with
  | outermost => exact h
  | nested hmem _ ih =>
    apply ih
    rcases h with rfl | h
    · exact absurd hmem List.not_mem_nil
    · cases h.isProper_of_mem hmem rfl with
      | nested hlevel => exact .inr hlevel

/-- Whatever the steps, every level of the tree that they build is tidy. -/
theorem isTidy_of_ofSteps {steps : List Step} {tree : Tree Clause} {level : List (Entry Clause)}
    (h : Tree.ofSteps steps = .ok tree) (hlevel : tree.HasLevel level) : IsTidy level :=
  (hlevel.isWellFormed (Tree.isWellFormed_of_ofSteps h)).isTidy

/-! ## An example -/

/-- Steps with markers where none can stand, and with groups and conjunctions of nothing. -/
def looseSteps : List Step :=
  [.or, .filter "a.b" .present, .or, .filterAll [], .or, .group [.or, .group [.or]], .and,
    .group [.or, .filter "c" .present, .or, .group [.filter "d.e.f.g" .absent, .or], .or], .or]

def innerLevel : List (Entry Clause) :=
  [.group [⟨⟨"d", ["e", "f", "g"], by decide, by simp [IsSegment, segmentSeparator]⟩, .absent⟩]]

def middleLevel : List (Entry Clause) :=
  [.group [⟨⟨"c", [], by decide, by simp [IsSegment, segmentSeparator]⟩, .present⟩], .or,
    .nested innerLevel]

def tightTree : Tree Clause :=
  [.group [⟨⟨"a", ["b"], by decide, by simp [IsSegment, segmentSeparator]⟩, .present⟩], .or,
    .nested middleLevel]

theorem ofSteps_looseSteps : Tree.ofSteps looseSteps = .ok tightTree := rfl

theorem hasLevel_innerLevel : tightTree.HasLevel innerLevel := by
  have hmiddle : .nested middleLevel ∈ tightTree := by simp [tightTree]
  have hinner : .nested innerLevel ∈ middleLevel := by simp [middleLevel]
  exact .nested hmiddle (.nested hinner (.outermost innerLevel))

theorem isTidy_of_ofSteps_example :
    Tree.ofSteps looseSteps = .ok tightTree ∧ tightTree.HasLevel innerLevel ∧ IsTidy innerLevel :=
  ⟨ofSteps_looseSteps, hasLevel_innerLevel,
    isTidy_of_ofSteps ofSteps_looseSteps hasLevel_innerLevel⟩

end IndexedSearch.Filter
