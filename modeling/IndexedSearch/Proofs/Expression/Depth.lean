import IndexedSearch.Proofs.Expression.Shape

/-!
# Depth of nesting

Groups and nested trees cost a level of parentheses each, and nothing else does.
-/

namespace IndexedSearch

namespace Filter

variable {α β : Type}

namespace Entry

mutual

/-- How deep groups and nested trees stand in each other in an entry. -/
def depth : Entry α → Nat
  | or => 0
  | group _ => 1
  | nested entries => depthAll entries + 1

/-- The greatest depth of several entries. -/
def depthAll : List (Entry α) → Nat
  | [] => 0
  | entry :: rest => max (depth entry) (depthAll rest)

end

mutual

theorem depth_mapLeaves (f : α → β) (entry : Entry α) :
    (entry.mapLeaves f).depth = entry.depth := by
  cases entry with
  | or => rfl
  | group conditions => rfl
  | nested entries => rw [mapLeaves, depth, depth, depthAll_mapLeavesAll f entries]

theorem depthAll_mapLeavesAll (f : α → β) (entries : List (Entry α)) :
    depthAll (mapLeavesAll f entries) = depthAll entries := by
  cases entries with
  | nil => rfl
  | cons entry rest =>
    rw [mapLeavesAll, depthAll, depthAll, depth_mapLeaves f entry, depthAll_mapLeavesAll f rest]

end

end Entry

/-- How deep groups and nested trees stand in each other in a tree. -/
def Tree.depth (tree : Tree α) : Nat := Entry.depthAll tree

theorem Tree.depth_mapLeaves (f : α → β) (tree : Tree α) : (tree.mapLeaves f).depth = tree.depth :=
  Entry.depthAll_mapLeavesAll f tree

end Filter

namespace Expression

open IndexedSearch.Filter (Entry)

variable {α : Type}

namespace Factor

mutual

/-- How deep parentheses stand in each other in a factor. -/
def depth : Factor α → Nat
  | atom _ => 0
  | parens first rest => max (depth first) (depthAll rest) + 1

/-- The greatest depth of several factors. -/
def depthAll : List (Connective × Factor α) → Nat
  | [] => 0
  | (_, factor) :: rest => max (depth factor) (depthAll rest)

end

end Factor

/-- How deep parentheses stand in each other in a level. -/
def Level.depth (level : Level α) : Nat := max level.first.depth (Factor.depthAll level.rest)

namespace Factor

theorem depthAll_of_conjuncts? {factors : List (Connective × Factor α)} {values : List α}
    (h : conjuncts? factors = some values) : depthAll factors = 0 := by
  induction factors generalizing values with
  | nil => rfl
  | cons link rest ih =>
    obtain ⟨value, others, rfl, hothers, rfl⟩ := conjuncts?_cons_eq_some_iff.1 h
    rw [depthAll, depth, ih hothers, Nat.max_self]

mutual

theorem depth_of_part? {factor : Factor α} {entry : Entry α} (h : factor.part? = some entry) :
    factor.depth = entry.depth := by
  match factor with
  | atom value => cases h
  | parens (atom value) rest =>
    rw [part?] at h
    obtain ⟨others, hothers, rfl⟩ := Option.map_eq_some_iff.1 h
    rw [depth, depth, depthAll_of_conjuncts? hothers, Entry.depth, Nat.max_self]
  | parens (parens first others) rest =>
    obtain ⟨head, entries, hhead, hentries, rfl⟩ := part?_parens_eq_some_iff.1 h
    have hfirst := depth_of_part? hhead
    rw [Entry.depth, Entry.depthAll, ← hfirst, ← depthAll_of_parts? hentries]
    rfl

theorem depthAll_of_parts? {factors : List (Connective × Factor α)} {entries : List (Entry α)}
    (h : parts? factors = some entries) : depthAll factors = Entry.depthAll entries := by
  match factors with
  | [] =>
    cases h
    rfl
  | (.and, factor) :: rest =>
    obtain ⟨entry, others, hentry, hothers, rfl⟩ := parts?_and_eq_some_iff.1 h
    rw [depthAll, Entry.depthAll, depth_of_part? hentry, depthAll_of_parts? hothers]
  | (.or, factor) :: rest =>
    obtain ⟨entry, others, hentry, hothers, rfl⟩ := parts?_or_eq_some_iff.1 h
    rw [depthAll, Entry.depthAll, Entry.depthAll, Entry.depth, depth_of_part? hentry,
      depthAll_of_parts? hothers, Nat.zero_max]

end

end Factor

/-- The parentheses of a level are nested as the tree that it stands for is. -/
theorem Level.depth_of_tree? {level : Level α} {tree : Filter.Tree α}
    (h : level.tree? = some tree) : level.depth = tree.depth := by
  obtain ⟨entry, entries, hentry, hentries, rfl⟩ := tree?_eq_some_iff.1 h
  rw [depth, Filter.Tree.depth, Entry.depthAll, Factor.depth_of_part? hentry,
    Factor.depthAll_of_parts? hentries]

end Expression

end IndexedSearch
