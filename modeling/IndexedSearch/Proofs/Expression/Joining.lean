import IndexedSearch.Proofs.Expression.Shape
import IndexedSearch.Proofs.Filter.Levels

/-!
# What stands between two pieces

The entries of a level that have conditions are the pieces of its text. Between two neighbouring
pieces stands `OR` just if a marker stands directly before the entry of the later one. An entry
without conditions therefore hides the markers before it. Where no such entry stands directly behind
a marker, at any depth, it is enough for `OR` that a marker stands anywhere between the two entries.
-/

namespace IndexedSearch

open IndexedSearch.Filter (Entry)

variable {α β : Type}

/-! ## Trees without hidden markers -/

namespace Filter

/-- No entry without conditions stands directly behind a marker of the level. -/
def ShowsMarkers (level : List (Entry α)) : Prop :=
  ∀ entry : Entry α, [.or, entry] <:+: level → entry.isOr = true ∨ entry.leaves ≠ []

/-- No entry without conditions stands directly behind a marker, at any depth of the tree. -/
def Tree.ShowsAllMarkers (tree : Tree α) : Prop :=
  ∀ level : List (Entry α), tree.HasLevel level → ShowsMarkers level

namespace Tree.ShowsAllMarkers

variable {tree : Tree α}

theorem outermost (h : tree.ShowsAllMarkers) : ShowsMarkers tree := h tree (.outermost tree)

theorem of_nested (h : tree.ShowsAllMarkers) {entries : List (Entry α)}
    (hmem : .nested entries ∈ tree) : ShowsAllMarkers entries := by
  intro level hlevel
  exact h level (.nested hmem hlevel)

/-- It is enough to look at the outermost level and at the nested trees. -/
theorem of_levels (houtermost : ShowsMarkers tree)
    (hnested : ∀ entries : List (Entry α), .nested entries ∈ tree → ShowsAllMarkers entries) :
    tree.ShowsAllMarkers := by
  intro level hlevel
  cases hlevel with
  | outermost => exact houtermost
  | nested hmem hlevel => exact hnested _ hmem level hlevel

end Tree.ShowsAllMarkers

theorem ShowsMarkers.mapLeavesAll {level : List (Entry α)} (h : ShowsMarkers level) (f : α → β) :
    ShowsMarkers (Entry.mapLeavesAll f level) := by
  intro entry hinfix
  rw [Entry.mapLeavesAll_eq_map, List.infix_map_iff] at hinfix
  obtain ⟨sources, hsources, heq⟩ := hinfix
  obtain ⟨marker, others, rfl, hmarker, hothers⟩ := List.map_eq_cons_iff.1 heq.symm
  obtain ⟨source, rest, rfl, rfl, hnil⟩ := List.map_eq_cons_iff.1 hothers
  rw [List.map_eq_nil_iff.1 hnil] at hsources
  cases marker with
  | group conditions => cases hmarker
  | nested entries => cases hmarker
  | or =>
    rw [Entry.isOr_mapLeaves, Entry.leaves_mapLeaves, ne_eq, List.map_eq_nil_iff]
    exact h source hsources

/-- The levels of a tree with its leaves changed are the levels of the tree with theirs changed. -/
theorem Tree.exists_of_hasLevel_mapLeaves {tree : Tree α} {f : α → β} {level : List (Entry β)}
    (h : (tree.mapLeaves f).HasLevel level) :
    ∃ source : List (Entry α), tree.HasLevel source ∧ Entry.mapLeavesAll f source = level := by
  generalize htree : tree.mapLeaves f = image at h
  induction h generalizing tree with
  | outermost => exact ⟨tree, .outermost tree, htree⟩
  | nested hmem _ ih =>
    rw [← htree, mapLeaves, Entry.mapLeavesAll_eq_map, List.mem_map] at hmem
    obtain ⟨entry, hentry, heq⟩ := hmem
    cases entry with
    | or => cases heq
    | group conditions => cases heq
    | nested entries =>
      obtain ⟨source, hsource, hlevel⟩ := ih (Entry.nested.inj heq)
      exact ⟨source, .nested hentry hsource, hlevel⟩

namespace Tree.ShowsAllMarkers

theorem mapLeaves {tree : Tree α} (h : tree.ShowsAllMarkers) (f : α → β) :
    (tree.mapLeaves f).ShowsAllMarkers := by
  intro level hlevel
  obtain ⟨source, hsource, rfl⟩ := exists_of_hasLevel_mapLeaves hlevel
  exact (h source hsource).mapLeavesAll f

/-- Conditions are taken out of a level without markers only. -/
theorem without {tree : Tree Clause} (h : tree.ShowsAllMarkers) {used : List Term}
    (hused : ∀ term ∈ used, term ∈ tree.terms) :
    (tree.without (used.map Term.position)).ShowsAllMarkers := by
  by_cases hor : tree.hasOr
  · rw [eq_nil_of_subset_terms hused hor, List.map_nil, without_nil]
    exact h
  · apply of_levels
    · intro entry hinfix
      have hmarker : .or ∈ tree.without (used.map Term.position) :=
        hinfix.subset List.mem_cons_self
      rw [← hasOr_without (used.map Term.position)] at hor
      exact absurd (List.any_eq_true.2 ⟨.or, hmarker, rfl⟩) hor
    · intro entries hmem
      obtain ⟨i, source, hsource, heq⟩ := mem_without.1 hmem
      cases source with
      | or => cases heq
      | group conditions => cases heq
      | nested inner =>
        cases heq
        exact h.of_nested (List.mem_of_getElem? hsource)

end Tree.ShowsAllMarkers

mutual

theorem Entry.IsProper.leaves_ne_nil : ∀ {entry : Entry α}, entry.IsProper → entry.leaves ≠ []
  | _, .group h => h
  | _, .nested h => IsLevel.leavesAll_ne_nil h

theorem IsLevel.leavesAll_ne_nil :
    ∀ {entries : List (Entry α)}, IsLevel entries → Entry.leavesAll entries ≠ []
  | _, .single h => List.append_ne_nil_of_left_ne_nil h.leaves_ne_nil _
  | _, .and h _ => List.append_ne_nil_of_left_ne_nil h.leaves_ne_nil _
  | _, .or h _ => List.append_ne_nil_of_left_ne_nil h.leaves_ne_nil _

end

/-- No marker is hidden in a filter that steps have built. -/
theorem Tree.showsAllMarkers_of_ofSteps {steps : List Step} {tree : Tree Clause}
    (h : Tree.ofSteps steps = .ok tree) : tree.ShowsAllMarkers := by
  intro level hlevel entry hinfix
  cases hor : entry.isOr with
  | true => exact .inl rfl
  | false =>
    have hmem : entry ∈ level := hinfix.subset (List.mem_cons_of_mem _ List.mem_cons_self)
    rcases hlevel.isWellFormed (isWellFormed_of_ofSteps h) with rfl | hform
    · cases hmem
    · exact .inr (hform.isProper_of_mem hmem hor).leaves_ne_nil

end Filter

namespace Expression

/-! ## Rules -/

/-- A rule for what stands between two pieces of a level, by the places of their entries. -/
abbrev Joiner (α : Type) := List (Entry α) → Nat → Nat → Connective

namespace Joiner

/-- `OR` if a marker stands anywhere between the two entries. -/
def anywhere : Joiner α := fun level i j ↦
  if ((level.take j).drop (i + 1)).any Entry.isOr then .or else .and

/-- `OR` if a marker stands directly before the later entry. -/
def directly : Joiner α := fun level _ j ↦
  if (level.take j).getLast?.any Entry.isOr then .or else .and

theorem anywhere_length (before after : List (Entry α)) (i : Nat) :
    anywhere (before ++ after) i before.length =
      if (before.drop (i + 1)).any Entry.isOr then .or else .and := by
  unfold anywhere
  rw [List.take_left]

theorem directly_length (before after : List (Entry α)) (i : Nat) :
    directly (before ++ after) i before.length =
      if before.getLast?.any Entry.isOr then .or else .and := by
  unfold directly
  rw [List.take_left]

end Joiner

namespace Factor

/-- Pieces behind the piece of the entry at a place, joined by a rule. -/
def behind (joiner : Joiner α) (level : List (Entry α)) (i : Nat) :
    List (Nat × Factor α) → List (Connective × Factor α)
  | [] => []
  | (j, piece) :: rest => (joiner level i j, piece) :: behind joiner level j rest

end Factor

/-- The pieces of a level joined by a rule, if there are any. -/
def Level.join? (joiner : Joiner α) (level : List (Entry α)) :
    List (Nat × Factor α) → Option (Level α)
  | [] => none
  | (i, first) :: rest => some ⟨first, Factor.behind joiner level i rest⟩

namespace Factor

mutual

/-- The piece of an entry, if it has any condition. -/
def piece? (joiner : Joiner α) : Entry α → Option (Factor α)
  | .or => none
  | .group [] => none
  | .group (value :: others) => some (parens (atom value) (alsoAtoms others))
  | .nested entries =>
    (Level.join? joiner entries (pieces joiner 0 entries)).map fun level ↦
      parens level.first level.rest

/-- The pieces of entries, each with the place of its entry. -/
def pieces (joiner : Joiner α) (i : Nat) : List (Entry α) → List (Nat × Factor α)
  | [] => []
  | entry :: rest =>
    match piece? joiner entry with
    | some piece => (i, piece) :: pieces joiner (i + 1) rest
    | none => pieces joiner (i + 1) rest

end

end Factor

/-- The level of a tree whose pieces are joined by a rule, at every depth. -/
def Level.joined? (joiner : Joiner α) (tree : Filter.Tree α) : Option (Level α) :=
  Level.join? joiner tree (Factor.pieces joiner 0 tree)

/-! ## A marker directly before the later entry -/

namespace Factor

open Joiner (anywhere directly)

variable {joiner : Joiner α} {entry : Entry α} {piece : Factor α} {rest before : List (Entry α)}

theorem pieces_cons_of_some (h : piece? joiner entry = some piece) (i : Nat) :
    pieces joiner i (entry :: rest) = (i, piece) :: pieces joiner (i + 1) rest := by
  rw [pieces, h]

theorem pieces_cons_of_none (h : piece? joiner entry = none) (i : Nat) :
    pieces joiner i (entry :: rest) = pieces joiner (i + 1) rest := by
  rw [pieces, h]

theorem isOr_of_ofEntry?_eq_some (h : ofEntry? entry = some piece) : entry.isOr = false := by
  cases entry with
  | or => cases h
  | group conditions => rfl
  | nested entries => rfl

theorem ofEntries_cons_of_none (h : ofEntry? entry = none) (pending : Connective) :
    ofEntries pending (entry :: rest) = ofEntries (if entry.isOr then .or else .and) rest := by
  cases entry with
  | or => rfl
  | group conditions =>
    simp only [ofEntries, h]
    rfl
  | nested entries =>
    simp only [ofEntries, h]
    rfl

theorem behind_directly (level : List (Entry α)) (i : Nat) (places : List (Nat × Factor α)) :
    behind directly level i places = places.map fun (j, piece) ↦ (directly level 0 j, piece) := by
  induction places generalizing i with
  | nil => rfl
  | cons place rest ih =>
    rw [behind, ih, List.map_cons]
    rfl

theorem join?_directly (level : List (Entry α)) (places : List (Nat × Factor α)) :
    Level.join? directly level places =
      Level.ofFactors? (places.map fun (j, piece) ↦ (directly level 0 j, piece)) := by
  cases places with
  | nil => rfl
  | cons place rest =>
    rw [Level.join?, behind_directly]
    rfl

mutual

theorem piece?_directly (entry : Entry α) : piece? directly entry = ofEntry? entry := by
  match entry with
  | .or => rfl
  | .group [] => rfl
  | .group (value :: others) => rfl
  | .nested entries =>
    have hentries := ofEntries_eq_pieces [] entries
    rw [piece?, join?_directly, ofEntry?]
    have hstart : ofEntries .and entries =
        (pieces directly 0 entries).map fun (j, piece) ↦ (directly entries 0 j, piece) := hentries
    rw [← hstart]
    cases ofEntries .and entries with
    | nil => rfl
    | cons factor rest => rfl

/-- Every factor stands behind what the rule asks for at the place of its entry. -/
theorem ofEntries_eq_pieces (before entries : List (Entry α)) :
    ofEntries (if before.getLast?.any Entry.isOr then .or else .and) entries =
      (pieces directly before.length entries).map fun (j, piece) ↦
        (directly (before ++ entries) 0 j, piece) := by
  match entries with
  | [] => rfl
  | entry :: rest =>
    -- The entry is the last one before the rest, so it decides how the rest goes on.
    have hlast : (before ++ [entry]).getLast?.any Entry.isOr = entry.isOr := by
      rw [List.getLast?_concat, Option.any_some]
    have hrest := ofEntries_eq_pieces (before ++ [entry]) rest
    rw [hlast, List.length_append, List.length_singleton, List.append_assoc,
      List.singleton_append] at hrest
    have hpiece := piece?_directly entry
    cases hfactor : ofEntry? entry with
    | none =>
      rw [hfactor] at hpiece
      rw [ofEntries_cons_of_none hfactor, pieces_cons_of_none hpiece, hrest]
    | some factor =>
      rw [hfactor] at hpiece
      rw [isOr_of_ofEntry?_eq_some hfactor] at hrest
      rw [ofEntries_cons hfactor, pieces_cons_of_some hpiece, List.map_cons, ← hrest,
        ← Joiner.directly_length before (entry :: rest) 0]
      rfl

end

end Factor

/-- In the level of a tree, `OR` stands where a marker stands directly before the later entry. -/
theorem Level.ofTree?_eq_joined? (tree : Filter.Tree α) :
    Level.ofTree? tree = Level.joined? .directly tree := by
  have hentries := Factor.ofEntries_eq_pieces [] tree
  rw [Level.joined?, Factor.join?_directly]
  exact congrArg Level.ofFactors? hentries

/-! ## A marker anywhere between the two entries -/

namespace Factor

open Joiner (anywhere directly)
open IndexedSearch.Filter (ShowsMarkers Tree.ShowsAllMarkers)

variable {entry : Entry α} {before : List (Entry α)}

theorem isOr_of_piece?_eq_some {piece : Factor α} (h : piece? directly entry = some piece) :
    entry.isOr = false := by
  rw [piece?_directly] at h
  exact isOr_of_ofEntry?_eq_some h

theorem leaves_of_piece?_eq_none (h : piece? directly entry = none) : entry.leaves = [] := by
  rw [← atoms_of_entry, ← piece?_directly, h]
  rfl

/-- What stands last decides whether a marker stands anywhere, as long as none is hidden. -/
theorem any_isOr_concat {seen : List (Entry α)}
    (hsame : seen.any Entry.isOr = before.getLast?.any Entry.isOr)
    (hpiece : piece? directly entry = none) {rest : List (Entry α)}
    (hshows : ShowsMarkers (before ++ entry :: rest)) :
    (seen ++ [entry]).any Entry.isOr = entry.isOr := by
  rw [List.any_append, List.any_cons, List.any_nil, Bool.or_false, hsame]
  cases hor : entry.isOr with
  | true => exact Bool.or_true _
  | false =>
    rw [Bool.or_false]
    cases hlast : before.getLast? with
    | none => rfl
    | some last =>
      cases last with
      | group conditions => rfl
      | nested entries => rfl
      | or =>
        -- The marker would be hidden by this entry.
        obtain ⟨first, rfl⟩ := List.getLast?_eq_some_iff.1 hlast
        have hinfix : [.or, entry] <:+: first ++ [.or] ++ entry :: rest := ⟨first, rest, by simp⟩
        rcases hshows entry hinfix with hmarker | hleaves
        · rw [hor] at hmarker
          cases hmarker
        · exact absurd (leaves_of_piece?_eq_none hpiece) hleaves

/-- Behind a piece, both rules agree as long as no marker is hidden. -/
theorem behind_anywhere (before entries : List (Entry α)) {i : Nat}
    (hsame : (before.drop (i + 1)).any Entry.isOr = before.getLast?.any Entry.isOr)
    (hi : i < before.length) (hshows : ShowsMarkers (before ++ entries)) :
    behind anywhere (before ++ entries) i (pieces directly before.length entries) =
      behind directly (before ++ entries) i (pieces directly before.length entries) := by
  -- Both rules remember whether a marker is pending; the entry at hand changes both in one way.
  induction entries generalizing before i with
  | nil => rfl
  | cons entry rest ih =>
    have hlength : (before ++ [entry]).length = before.length + 1 := List.length_append
    have hlast : (before ++ [entry]).getLast?.any Entry.isOr = entry.isOr := by
      rw [List.getLast?_concat, Option.any_some]
    have hgoesOn (j : Nat) (hj : j ≤ before.length)
        (hnext : ((before ++ [entry]).drop (j + 1)).any Entry.isOr = entry.isOr) :
        behind anywhere (before ++ entry :: rest) j (pieces directly (before.length + 1) rest) =
          behind directly (before ++ entry :: rest) j
            (pieces directly (before.length + 1) rest) := by
      have hrest := ih (before ++ [entry]) (hnext.trans hlast.symm)
        (hlength ▸ Nat.lt_succ_of_le hj) (by simpa using hshows)
      rwa [hlength, List.append_assoc, List.singleton_append] at hrest
    cases hpiece : piece? directly entry with
    | none =>
      rw [pieces_cons_of_none hpiece]
      apply hgoesOn i (Nat.le_of_lt hi)
      rw [List.drop_append_of_le_length hi]
      exact any_isOr_concat hsame hpiece hshows
    | some piece =>
      have hor := isOr_of_piece?_eq_some hpiece
      have hrest := hgoesOn before.length (Nat.le_refl _) (by
        rw [← hlength, List.drop_length, hor]
        rfl)
      rw [pieces_cons_of_some hpiece, behind, behind, hrest, Joiner.anywhere_length,
        Joiner.directly_length, hsame]

/-- Before the first piece there is nothing to join. -/
theorem join?_anywhere (before entries : List (Entry α))
    (hshows : ShowsMarkers (before ++ entries)) :
    Level.join? anywhere (before ++ entries) (pieces directly before.length entries) =
      Level.join? directly (before ++ entries) (pieces directly before.length entries) := by
  induction entries generalizing before with
  | nil => rfl
  | cons entry rest ih =>
    have hlength : (before ++ [entry]).length = before.length + 1 := List.length_append
    have hlevel : before ++ entry :: rest = before ++ [entry] ++ rest := by simp
    cases hpiece : piece? directly entry with
    | none =>
      rw [pieces_cons_of_none hpiece, ← hlength, hlevel]
      apply ih
      rwa [← hlevel]
    | some piece =>
      have hor := isOr_of_piece?_eq_some hpiece
      rw [pieces_cons_of_some hpiece, Level.join?, Level.join?, ← hlength, hlevel,
        behind_anywhere (before ++ [entry]) rest _ _ (hlevel ▸ hshows)]
      · rw [← hlength, List.drop_length, List.getLast?_concat, Option.any_some, hor]
        rfl
      · exact hlength ▸ Nat.lt_succ_self _

mutual

theorem piece?_anywhere (entry : Entry α)
    (hshows : ∀ entries, entry = .nested entries → Tree.ShowsAllMarkers entries) :
    piece? anywhere entry = piece? directly entry := by
  match entry with
  | .or => rfl
  | .group [] => rfl
  | .group (value :: others) => rfl
  | .nested entries =>
    have hentries := hshows entries rfl
    have hjoin := join?_anywhere [] entries hentries.outermost
    rw [piece?, piece?, pieces_anywhere entries (fun _ hmem ↦ hentries.of_nested hmem)]
    exact congrArg _ hjoin

theorem pieces_anywhere (entries : List (Entry α))
    (hshows : ∀ inner : List (Entry α), .nested inner ∈ entries → Tree.ShowsAllMarkers inner)
    (i : Nat) : pieces anywhere i entries = pieces directly i entries := by
  match entries with
  | [] => rfl
  | entry :: rest =>
    have hentry := piece?_anywhere entry fun inner h ↦ hshows inner (h ▸ List.mem_cons_self)
    have hrest := pieces_anywhere rest (fun inner hmem ↦ hshows inner (List.mem_cons_of_mem _ hmem))
    rw [pieces, pieces, hentry, hrest]

end

end Factor

/-- Where no marker is hidden, it does not matter where a marker stands between two entries. -/
theorem Level.joined?_anywhere {tree : Filter.Tree α} (h : tree.ShowsAllMarkers) :
    Level.joined? .anywhere tree = Level.joined? .directly tree := by
  have hjoin := Factor.join?_anywhere [] tree h.outermost
  rw [Level.joined?, Factor.pieces_anywhere tree (fun _ hmem ↦ h.of_nested hmem)]
  exact hjoin

end Expression

end IndexedSearch
