import IndexedSearch.Filter.Builder

/-!
# Well-formed filter trees

A level is well formed if markers stand only between entries, no group is empty and the level of
every nested tree is well formed. Steps keep the entries of a builder well formed up to a marker at
the end, which building drops, so every tree that is built is empty or well formed. Changing the
leaves of a tree does not change its form.
-/

namespace IndexedSearch.Filter

variable {α β : Type} {entry : Entry α} {entries rest : List (Entry α)}

mutual

/-- The entry is no marker, and has conditions throughout. -/
inductive Entry.IsProper : Entry α → Prop
  | group {conditions : List α} (h : conditions ≠ []) : Entry.IsProper (.group conditions)
  | nested {entries : List (Entry α)} (h : IsLevel entries) : Entry.IsProper (.nested entries)

/-- There is a proper entry, and every marker stands between two of them. -/
inductive IsLevel : List (Entry α) → Prop
  | single {entry : Entry α} (h : Entry.IsProper entry) : IsLevel [entry]
  | and {entry : Entry α} {rest : List (Entry α)} (h : Entry.IsProper entry)
    (hrest : IsLevel rest) : IsLevel (entry :: rest)
  | or {entry : Entry α} {rest : List (Entry α)} (h : Entry.IsProper entry)
    (hrest : IsLevel rest) : IsLevel (entry :: .or :: rest)

end

/-- The tree is empty or a well-formed level. -/
def Tree.IsWellFormed (tree : Tree α) : Prop := tree = [] ∨ IsLevel tree

namespace IsLevel

/-- A proper entry at the end goes on with the last branch. -/
theorem append_entry (hentry : entry.IsProper) :
    ∀ {entries : List (Entry α)}, IsLevel entries → IsLevel (entries ++ [entry])
  | _, .single h => .and h (.single hentry)
  | _, .and h hrest => .and h (append_entry hentry hrest)
  | _, .or h hrest => .or h (append_entry hentry hrest)

/-- A proper entry behind a marker starts a new branch. -/
theorem append_branch (hentry : entry.IsProper) :
    ∀ {entries : List (Entry α)}, IsLevel entries → IsLevel (entries ++ [.or, entry])
  | _, .single h => .or h (.single hentry)
  | _, .and h hrest => .and h (append_branch hentry hrest)
  | _, .or h hrest => .or h (append_branch hentry hrest)

/-- The last entry is no marker. -/
theorem getLast?_eq :
    ∀ {entries : List (Entry α)}, IsLevel entries →
      ∃ last : Entry α, last.IsProper ∧ entries.getLast? = some last
  | _, .single h => ⟨_, h, rfl⟩
  | _, .and _ hrest => by
    obtain ⟨last, hlast, heq⟩ := getLast?_eq hrest
    exact ⟨last, hlast, by simp [List.getLast?_cons, heq]⟩
  | _, .or _ hrest => by
    obtain ⟨last, hlast, heq⟩ := getLast?_eq hrest
    exact ⟨last, hlast, by simp [List.getLast?_cons, heq]⟩

/-- What is no marker is proper. -/
theorem isProper_of_mem :
    ∀ {entries : List (Entry α)}, IsLevel entries → entry ∈ entries → entry.isOr = false →
      entry.IsProper
  | _, .single h, hmem, _ => by
    rw [List.mem_singleton.1 hmem]
    exact h
  | _, .and h hrest, hmem, hor => by
    rcases List.mem_cons.1 hmem with rfl | hmem
    · exact h
    · exact isProper_of_mem hrest hmem hor
  | _, .or h hrest, hmem, hor => by
    rcases List.mem_cons.1 hmem with rfl | hmem
    · exact h
    · rcases List.mem_cons.1 hmem with rfl | hmem
      · simp [Entry.isOr] at hor
      · exact isProper_of_mem hrest hmem hor

end IsLevel

namespace Tree

variable {tree : Tree α}

/-- Proper entries without markers are a single branch. -/
theorem isWellFormed_of_forall (h : ∀ entry ∈ tree, entry.IsProper) : tree.IsWellFormed := by
  induction tree with
  | nil => exact .inl rfl
  | cons entry rest ih =>
    have hentry := h entry List.mem_cons_self
    rcases ih fun other hother ↦ h other (List.mem_cons_of_mem _ hother) with rfl | hrest
    · exact .inr (.single hentry)
    · exact .inr (.and hentry hrest)

/-- Without a marker, the entries of a well-formed tree are proper. -/
theorem IsWellFormed.isProper_of_hasOr_eq_false (h : tree.IsWellFormed) (hor : tree.hasOr = false) :
    ∀ entry ∈ tree, entry.IsProper := by
  intro entry hmem
  rcases h with rfl | h
  · exact absurd hmem (List.not_mem_nil)
  · apply h.isProper_of_mem hmem
    simpa using List.any_eq_false.1 hor entry hmem

end Tree

/-! ## Changing the leaves -/

mutual

theorem Entry.IsProper.mapLeaves (f : α → β) :
    ∀ {entry : Entry α}, entry.IsProper → (entry.mapLeaves f).IsProper
  | _, .group h => .group (by simpa using h)
  | _, .nested h => .nested (IsLevel.mapLeavesAll f h)

theorem IsLevel.mapLeavesAll (f : α → β) :
    ∀ {entries : List (Entry α)}, IsLevel entries → IsLevel (Entry.mapLeavesAll f entries)
  | _, .single h => .single (h.mapLeaves f)
  | _, .and h hrest => .and (h.mapLeaves f) (hrest.mapLeavesAll f)
  | _, .or h hrest => .or (h.mapLeaves f) (hrest.mapLeavesAll f)

end

theorem Tree.IsWellFormed.mapLeaves {tree : Tree α} (f : α → β) (h : tree.IsWellFormed) :
    (tree.mapLeaves f).IsWellFormed := by
  rcases h with rfl | h
  · exact .inl rfl
  · exact .inr (h.mapLeavesAll f)

theorem Tree.mapLeaves_eq_nil_iff {tree : Tree α} {f : α → β} :
    tree.mapLeaves f = [] ↔ tree = [] := by
  cases tree <;> simp [Tree.mapLeaves, Entry.mapLeavesAll]

/-! ## Building -/

namespace Builder

/-- The entries are well formed, up to a marker at the end. -/
inductive IsSound : List (Entry Clause) → Prop
  | empty : IsSound []
  | level {entries : List (Entry Clause)} (h : IsLevel entries) : IsSound entries
  | pending {entries : List (Entry Clause)} (h : IsLevel entries) : IsSound (entries ++ [.or])

variable {builder child : Builder}

/-- A proper entry can be added at any time. -/
theorem isSound_push {entry : Entry Clause} (h : IsSound builder.entries)
    (hentry : entry.IsProper) : IsSound (builder.push entry).entries := by
  unfold push
  generalize builder.entries = entries at h
  cases h with
  | empty => exact .level (.single hentry)
  | level h => exact .level (h.append_entry hentry)
  | pending h =>
    rw [List.append_assoc]
    exact .level (h.append_branch hentry)

theorem isSound_filterAll (h : IsSound builder.entries)
    (conditions : List (String × Condition)) : IsSound (builder.filterAll conditions).entries := by
  rw [filterAll]
  split
  · exact h
  · rename_i hclauses
    apply isSound_push h
    apply Entry.IsProper.group
    simpa using hclauses

theorem isSound_or (h : IsSound builder.entries) : IsSound builder.or.entries := by
  unfold or
  split
  · exact h
  · exact h
  · rename_i hor hlast
    unfold push
    generalize builder.entries = entries at h hlast
    cases h with
    | empty => simp at hlast
    | level h => exact .pending h
    | pending h =>
      rw [List.getLast?_concat] at hlast
      exact absurd (Option.some.inj hlast).symm hor

/-- Dropping a marker at the end leaves a well-formed tree. -/
theorem isWellFormed_finished (h : IsSound builder.entries) : builder.finished.IsWellFormed := by
  unfold finished
  generalize builder.entries = entries at h
  cases h with
  | empty => exact .inl rfl
  | level h =>
    obtain ⟨last, hlast, heq⟩ := h.getLast?_eq
    rw [heq]
    cases hlast with
    | group => exact .inr h
    | nested => exact .inr h
  | pending h =>
    rw [List.getLast?_concat, List.dropLast_concat]
    exact .inr h

theorem isSound_group (h : IsSound builder.entries) (hchild : IsSound child.entries) :
    IsSound (builder.group child).entries := by
  unfold group
  split
  · exact h
  · split
    · exact h
    · rename_i hnonempty
      rcases isWellFormed_finished hchild with hnil | hlevel
      · exact absurd (by simp [hnil]) hnonempty
      · exact isSound_push h (.nested hlevel)

mutual

/-- A step keeps the entries well formed up to a marker at the end. -/
theorem isSound_apply {builder : Builder} (h : IsSound builder.entries) (step : Step) :
    IsSound (builder.apply step).entries := by
  cases step with
  | filter path condition => exact isSound_filterAll h _
  | filterAll conditions => exact isSound_filterAll h conditions
  | or => exact isSound_or h
  | and => exact h
  | group steps =>
    have hchild : IsSound (applyAll empty steps).entries := isSound_applyAll .empty steps
    rw [apply]
    exact isSound_group h hchild

theorem isSound_applyAll {builder : Builder} (h : IsSound builder.entries) (steps : List Step) :
    IsSound (builder.applyAll steps).entries := by
  cases steps with
  | nil => exact h
  | cons step rest =>
    rw [applyAll]
    exact isSound_applyAll (isSound_apply h step) rest

end

theorem build_eq_ok {tree : Tree Clause} (h : builder.build = .ok tree) :
    builder.finished = tree := by
  unfold build at h
  split at h
  · cases h
  · cases h
    rfl

end Builder

/-- Every tree that steps build is well formed. -/
theorem Tree.isWellFormed_of_ofSteps {steps : List Step} {tree : Tree Clause}
    (h : Tree.ofSteps steps = .ok tree) : tree.IsWellFormed := by
  rw [← Builder.build_eq_ok h]
  exact Builder.isWellFormed_finished (Builder.isSound_applyAll .empty steps)

end IndexedSearch.Filter
