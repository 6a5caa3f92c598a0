import IndexedSearch.Expression.Level
import IndexedSearch.Proofs.Filter.Remaining

/-!
# The tree of a level

Parentheses around a run of atoms in conjunction are those of a group, parentheses around
parentheses those of a nested tree, and `OR` is a marker. Read in this way, the level of a
well-formed tree gives that tree back. The atoms of the level are the leaves of the tree, also where
the tree is not well formed.
-/

namespace IndexedSearch.Expression

open IndexedSearch.Filter (Entry IsLevel)

variable {α : Type}

namespace Factor

/-- The atoms of factors, all behind `AND`. -/
def conjuncts? (factors : List (Connective × Factor α)) : Option (List α) :=
  factors.mapM fun
    | (.and, atom value) => some value
    | _ => none

mutual

/-- The entry of a tree that a factor in parentheses stands for. -/
def part? : Factor α → Option (Entry α)
  | atom _ => none
  | parens (atom value) rest => (conjuncts? rest).map fun others ↦ .group (value :: others)
  | parens (parens first others) rest => do
    return .nested ((← part? (parens first others)) :: (← parts? rest))

/-- The entries that factors behind connectives stand for. -/
def parts? : List (Connective × Factor α) → Option (List (Entry α))
  | [] => some []
  | (.and, factor) :: rest => do return (← part? factor) :: (← parts? rest)
  | (.or, factor) :: rest => do return .or :: (← part? factor) :: (← parts? rest)

end

end Factor

/-- The filter tree that a level stands for, if it is the level of one. -/
def Level.tree? (level : Level α) : Option (Filter.Tree α) := do
  return (← level.first.part?) :: (← Factor.parts? level.rest)

theorem Level.tree?_eq_some_iff {level : Level α} {tree : Filter.Tree α} :
    level.tree? = some tree ↔
      ∃ head tail, level.first.part? = some head ∧ Factor.parts? level.rest = some tail ∧
        head :: tail = tree := by
  simp [Level.tree?, Option.bind_eq_some_iff]

/-- No level stands for the empty tree. -/
theorem Level.tree?_ne_nil {level : Level α} : level.tree? ≠ some [] := by
  simp [Level.tree?_eq_some_iff]

namespace Factor

variable {first factor : Factor α} {rest others : List (Connective × Factor α)}
  {entry : Entry α} {entries : List (Entry α)}

theorem part?_parens_eq_some_iff :
    (parens (parens first others) rest).part? = some entry ↔
      ∃ head tail, (parens first others).part? = some head ∧ parts? rest = some tail ∧
        .nested (head :: tail) = entry := by
  simp [part?, Option.bind_eq_some_iff]

theorem parts?_and_eq_some_iff :
    parts? ((.and, factor) :: rest) = some entries ↔
      ∃ head tail, factor.part? = some head ∧ parts? rest = some tail ∧
        head :: tail = entries := by
  simp [parts?, Option.bind_eq_some_iff]

theorem parts?_or_eq_some_iff :
    parts? ((.or, factor) :: rest) = some entries ↔
      ∃ head tail, factor.part? = some head ∧ parts? rest = some tail ∧
        .or :: head :: tail = entries := by
  simp [parts?, Option.bind_eq_some_iff]

theorem conjuncts?_cons_eq_some_iff {link : Connective × Factor α} {values : List α} :
    conjuncts? (link :: rest) = some values ↔
      ∃ value tail, link = (.and, atom value) ∧ conjuncts? rest = some tail ∧
        value :: tail = values := by
  match link with
  | (.and, atom value) => simp [conjuncts?, Option.bind_eq_some_iff]
  | (.and, parens first others) => simp [conjuncts?]
  | (.or, factor) => simp [conjuncts?]

theorem conjuncts?_alsoAtoms (values : List α) : conjuncts? (alsoAtoms values) = some values := by
  induction values with
  | nil => rfl
  | cons value rest ih =>
    rw [conjuncts?, alsoAtoms] at ih
    rw [conjuncts?, alsoAtoms, List.map_cons, List.mapM_cons, ih]
    rfl

theorem ofEntries_cons (h : ofEntry? entry = some factor) (pending : Connective)
    (entries : List (Entry α)) :
    ofEntries pending (entry :: entries) = (pending, factor) :: ofEntries .and entries := by
  cases entry with
  | or => cases h
  | group conditions => simp only [ofEntries, h]
  | nested entries => simp only [ofEntries, h]

/-- A level of entries in parentheses is a nested tree. -/
theorem part?_parens (h : Level.tree? ⟨first, rest⟩ = some entries) :
    (parens first rest).part? = some (.nested entries) := by
  obtain ⟨head, tail, hhead, htail, rfl⟩ := Level.tree?_eq_some_iff.1 h
  cases first with
  | atom value => cases hhead
  | parens inner others => exact part?_parens_eq_some_iff.2 ⟨head, tail, hhead, htail, rfl⟩

mutual

/-- The factor of a proper entry stands for it. -/
theorem part?_of_isProper :
    ∀ {entry : Entry α}, entry.IsProper →
      ∃ factor : Factor α, ofEntry? entry = some factor ∧ factor.part? = some entry
  | .group (value :: others), .group _ => by
    refine ⟨_, rfl, ?_⟩
    rw [part?, conjuncts?_alsoAtoms]
    rfl
  | .group [], .group h => absurd rfl h
  | .nested entries, .nested h => by
    obtain ⟨first, rest, hfactors, htree⟩ := tree?_ofEntries h .and
    refine ⟨parens first rest, ?_, part?_parens htree⟩
    simp only [hfactors, ofEntry?]

/-- The factors of a well-formed level stand for it. -/
theorem tree?_ofEntries :
    ∀ {entries : List (Entry α)}, IsLevel entries → ∀ pending : Connective,
      ∃ (first : Factor α) (rest : List (Connective × Factor α)),
        ofEntries pending entries = (pending, first) :: rest ∧
          Level.tree? ⟨first, rest⟩ = some entries
  | _, .single hentry, pending => by
    obtain ⟨factor, hfactor, hback⟩ := part?_of_isProper hentry
    exact ⟨factor, [], ofEntries_cons hfactor pending [],
      Level.tree?_eq_some_iff.2 ⟨_, [], hback, rfl, rfl⟩⟩
  | _, .and hentry hrest, pending => by
    obtain ⟨factor, hfactor, hback⟩ := part?_of_isProper hentry
    obtain ⟨first, others, hfactors, htree⟩ := tree?_ofEntries hrest .and
    refine ⟨factor, (.and, first) :: others, ?_, Level.tree?_eq_some_iff.2 ⟨_, _, hback, ?_, rfl⟩⟩
    · rw [ofEntries_cons hfactor, hfactors]
    · exact htree
  | _, .or hentry hrest, pending => by
    obtain ⟨factor, hfactor, hback⟩ := part?_of_isProper hentry
    obtain ⟨first, others, hfactors, htree⟩ := tree?_ofEntries hrest .or
    obtain ⟨head, tail, hhead, htail, rfl⟩ := Level.tree?_eq_some_iff.1 htree
    refine ⟨factor, (.or, first) :: others, ?_, Level.tree?_eq_some_iff.2 ⟨_, _, hback, ?_, rfl⟩⟩
    · rw [ofEntries_cons hfactor, ofEntries, hfactors]
    · exact parts?_or_eq_some_iff.2 ⟨head, tail, hhead, htail, rfl⟩

end

theorem atomsAll_alsoAtoms (values : List α) : atomsAll (alsoAtoms values) = values := by
  induction values with
  | nil => rfl
  | cons value rest ih =>
    rw [alsoAtoms] at ih
    rw [alsoAtoms, List.map_cons, atomsAll, atoms, ih, List.singleton_append]

theorem atomsAll_ofEntries_cons {entry : Entry α} (h : entry.isOr = false) (pending : Connective)
    (rest : List (Entry α)) :
    atomsAll (ofEntries pending (entry :: rest)) =
      (Option.map atoms <| ofEntry? entry).getD [] ++ atomsAll (ofEntries .and rest) := by
  cases entry with
  | or => cases h
  | group conditions =>
    rw [ofEntries]
    · cases ofEntry? (.group conditions) <;> rfl
    · intro hor
      cases hor
  | nested entries =>
    rw [ofEntries]
    · cases ofEntry? (.nested entries) <;> rfl
    · intro hor
      cases hor

mutual

/-- The atoms of the factor of an entry are the leaves of the entry. -/
theorem atoms_of_entry (entry : Entry α) :
    (Option.map atoms <| ofEntry? entry).getD [] = entry.leaves := by
  match entry with
  | .or => rfl
  | .group [] => rfl
  | .group (value :: others) => simp [atoms, atomsAll_alsoAtoms, ofEntry?, Entry.leaves]
  | .nested entries =>
    have hatoms := atomsAll_ofEntries .and entries
    rw [Entry.leaves, ← hatoms, ofEntry?]
    cases ofEntries .and entries with
    | nil => rfl
    | cons factor rest => rfl

theorem atomsAll_ofEntries (pending : Connective) (entries : List (Entry α)) :
    atomsAll (ofEntries pending entries) = Entry.leavesAll entries := by
  match entries with
  | [] => rfl
  | .or :: rest =>
    rw [ofEntries, Entry.leavesAll, Entry.leaves, List.nil_append]
    exact atomsAll_ofEntries .or rest
  | .group conditions :: rest =>
    rw [atomsAll_ofEntries_cons rfl, atoms_of_entry (.group conditions),
      atomsAll_ofEntries .and rest, Entry.leavesAll]
  | .nested entries :: rest =>
    rw [atomsAll_ofEntries_cons rfl, atoms_of_entry (.nested entries),
      atomsAll_ofEntries .and rest, Entry.leavesAll]

end

/-- Behind `AND`, an empty group leaves no trace. -/
theorem ofEntries_filter_isEmptyGroup {entries : List (Entry α)}
    (h : Filter.Tree.hasOr entries = false) :
    ofEntries .and (entries.filter fun entry ↦ !entry.isEmptyGroup) = ofEntries .and entries := by
  induction entries with
  | nil => rfl
  | cons entry rest ih =>
    rw [Filter.Tree.hasOr, List.any_cons, Bool.or_eq_false_iff] at h
    have ih := ih h.2
    by_cases hempty : entry.isEmptyGroup
    · rw [List.filter_cons_of_neg (by simpa using hempty), ih,
        Entry.eq_group_nil_of_isEmptyGroup hempty]
      rfl
    · rw [List.filter_cons_of_pos (by simpa using hempty)]
      cases entry with
      | or => cases h.1
      | group conditions => simp only [ofEntries, ih]
      | nested entries => simp only [ofEntries, ih]

end Factor

namespace Level

open IndexedSearch.Filter (Clause Term)

theorem atoms_ofFactors? (factors : List (Connective × Factor α)) :
    ((ofFactors? factors).map atoms).getD [] = Factor.atomsAll factors := by
  cases factors <;> rfl

/-- The atoms of the level of a tree are the leaves of the tree. -/
theorem atoms_ofTree? (tree : Filter.Tree α) :
    ((ofTree? tree).map atoms).getD [] = tree.leaves := by
  rw [ofTree?, atoms_ofFactors?, Factor.atomsAll_ofEntries]
  rfl

theorem atoms_conjunction? (values : List α) :
    ((conjunction? values).map atoms).getD [] = values := by
  rw [conjunction?, atoms_ofFactors?, Factor.atomsAll_alsoAtoms]

theorem conjunction?_eq_none_iff {values : List α} : conjunction? values = none ↔ values = [] := by
  cases values <;> simp [conjunction?, Factor.alsoAtoms, ofFactors?]

/-- The level of a well-formed tree gives the tree back; only the empty tree has none. -/
theorem ofTree?_cases {tree : Filter.Tree α} (h : tree.IsWellFormed) :
    (tree = [] ∧ ofTree? tree = none) ∨
      ∃ level, ofTree? tree = some level ∧ level.tree? = some tree := by
  rcases h with rfl | h
  · exact .inl ⟨rfl, rfl⟩
  · obtain ⟨first, rest, hfactors, htree⟩ := Factor.tree?_ofEntries h .and
    refine .inr ⟨⟨first, rest⟩, ?_, htree⟩
    rw [ofTree?, hfactors, ofFactors?]

/-- Groups that get empty are not seen in the level of what is left of a tree. -/
theorem ofTree?_without {tree : Filter.Tree Clause} {used : List Term} (h : tree.IsWellFormed)
    (hused : ∀ term ∈ used, term ∈ tree.terms) (f : Clause → α) :
    ofTree? ((tree.without (used.map Term.position)).mapLeaves f) =
      ofTree? ((tree.remaining (used.map Term.position)).mapLeaves f) := by
  by_cases hor : tree.hasOr
  · rw [Filter.Tree.eq_nil_of_subset_terms hused hor, List.map_nil, h.remaining_nil,
      Filter.Tree.without_nil]
  have hfilter : (tree.remaining (used.map Term.position)).mapLeaves f =
      ((tree.without (used.map Term.position)).mapLeaves f).filter fun entry ↦
        !entry.isEmptyGroup := by
    simp [Filter.Tree.remaining, Filter.Tree.mapLeaves, Entry.mapLeavesAll_eq_map, List.filter_map,
      Function.comp_def, Entry.isEmptyGroup_mapLeaves]
  have hnone : Filter.Tree.hasOr ((tree.without (used.map Term.position)).mapLeaves f) = false := by
    rw [Filter.Tree.hasOr_mapLeaves, Filter.Tree.hasOr_without]
    simpa using hor
  rw [hfilter, ofTree?, ofTree?, Factor.ofEntries_filter_isEmptyGroup hnone]

end Level

end IndexedSearch.Expression
