import Mathlib.Data.List.Forall2

/-!
# Outcomes of composed computations

What it takes for a composed computation to end with a result, with an error, or without a result.
-/

namespace IndexedSearch

variable {ε δ α β : Type}

theorem pure_eq_ok_iff {value result : α} :
    (pure value : Except ε α) = .ok result ↔ value = result :=
  Iff.of_eq (Except.ok.injEq value result)

theorem pure_ne_error {value : α} {error : ε} : (pure value : Except ε α) ≠ .error error :=
  nofun

theorem throw_ne_ok {error : ε} {result : α} : (throw error : Except ε α) ≠ .ok result :=
  nofun

theorem throw_eq_error_iff {cause error : ε} :
    (throw cause : Except ε α) = .error error ↔ cause = error :=
  Iff.of_eq (Except.error.injEq cause error)

theorem bind_eq_ok_iff {outcome : Except ε α} {next : α → Except ε β} {result : β} :
    (outcome >>= next) = .ok result ↔ ∃ value, outcome = .ok value ∧ next value = .ok result := by
  cases outcome with
  | error error => simp [bind, Except.bind]
  | ok value => simp [bind, Except.bind]

theorem bind_eq_error_iff {outcome : Except ε α} {next : α → Except ε β} {error : ε} :
    (outcome >>= next) = .error error ↔
      outcome = .error error ∨ ∃ value, outcome = .ok value ∧ next value = .error error := by
  cases outcome with
  | error error => simp [bind, Except.bind]
  | ok value => simp [bind, Except.bind]

theorem map_eq_ok_iff {outcome : Except ε α} {f : α → β} {result : β} :
    outcome.map f = .ok result ↔ ∃ value, outcome = .ok value ∧ f value = result := by
  cases outcome with
  | error error => simp [Except.map]
  | ok value => simp [Except.map]

theorem map_eq_error_iff {outcome : Except ε α} {f : α → β} {error : ε} :
    outcome.map f = .error error ↔ outcome = .error error := by
  cases outcome with
  | error error => simp [Except.map]
  | ok value => simp [Except.map]

theorem mapError_eq_error_iff {outcome : Except ε α} {f : ε → δ} {error : δ} :
    outcome.mapError f = .error error ↔ ∃ cause, outcome = .error cause ∧ f cause = error := by
  cases outcome with
  | error cause => simp [Except.mapError]
  | ok value => simp [Except.mapError]

theorem mapError_eq_ok_iff {outcome : Except ε α} {f : ε → δ} {result : α} :
    outcome.mapError f = .ok result ↔ outcome = .ok result := by
  cases outcome with
  | error error => exact iff_of_false nofun nofun
  | ok value =>
    constructor
    · intro h
      cases h
      rfl
    · intro h
      cases h
      rfl

/-! ## The members of a list, one after another -/

theorem mapM_eq_ok_iff {f : α → Except ε β} {members : List α} {results : List β} :
    members.mapM f = .ok results ↔
      List.Forall₂ (fun member result ↦ f member = .ok result) members results := by
  induction members generalizing results with
  | nil =>
    rw [List.mapM_nil, List.forall₂_nil_left_iff]
    exact ⟨fun h ↦ (Except.ok.inj h).symm, fun h ↦ congrArg _ h.symm⟩
  | cons member rest ih =>
    rw [List.mapM_cons, bind_eq_ok_iff, List.forall₂_cons_left_iff]
    simp only [bind_eq_ok_iff, ih]
    constructor
    · intro hexists
      rcases hexists with ⟨first, hfirst, others, hothers, hresults⟩
      exact ⟨first, others, hfirst, hothers, (Except.ok.inj hresults).symm⟩
    · intro hexists
      rcases hexists with ⟨first, others, hfirst, hothers, rfl⟩
      exact ⟨first, hfirst, others, hothers, rfl⟩

/-- One member with an error is enough for all to end with an error. -/
theorem exists_mapM_eq_error {f : α → Except ε β} {members : List α} {member : α} {error : ε}
    (hmem : member ∈ members) (h : f member = .error error) :
    ∃ first, members.mapM f = .error first := by
  induction members with
  | nil => exact absurd hmem List.not_mem_nil
  | cons head rest ih =>
    rw [List.mapM_cons]
    rcases List.mem_cons.1 hmem with rfl | hmem
    · exact ⟨error, bind_eq_error_iff.2 (.inl h)⟩
    · obtain ⟨first, hfirst⟩ := ih hmem
      cases hhead : f head with
      | error other => exact ⟨other, rfl⟩
      | ok result =>
        exact ⟨first, bind_eq_error_iff.2 (.inr ⟨result, rfl, bind_eq_error_iff.2 (.inl hfirst)⟩)⟩

/-- The error of the first member that has one is the error of all. -/
theorem mapM_eq_error_iff {f : α → Except ε β} {members : List α} {error : ε} :
    members.mapM f = .error error ↔
      ∃ before member after, members = before ++ member :: after ∧
        (∀ earlier ∈ before, ∃ result, f earlier = .ok result) ∧ f member = .error error := by
  induction members with
  | nil => simp [pure, Except.pure]
  | cons first rest ih =>
    rw [List.mapM_cons, bind_eq_error_iff]
    constructor
    · intro h
      rcases h with hfirst | ⟨result, hfirst, hrest⟩
      · exact ⟨[], first, rest, rfl, by simp, hfirst⟩
      · rcases bind_eq_error_iff.1 hrest with hrest | ⟨_, _, hdone⟩
        · obtain ⟨before, member, after, rfl, hbefore, hmember⟩ := ih.1 hrest
          refine ⟨first :: before, member, after, rfl, ?_, hmember⟩
          exact List.forall_mem_cons.2 ⟨⟨result, hfirst⟩, hbefore⟩
        · cases hdone
    · intro h
      obtain ⟨before, member, after, hmembers, hbefore, hmember⟩ := h
      cases before with
      | nil =>
        cases hmembers
        exact .inl hmember
      | cons earlier before =>
        cases hmembers
        obtain ⟨⟨result, hfirst⟩, hbefore⟩ := List.forall_mem_cons.1 hbefore
        have hrest := ih.2 ⟨before, member, after, rfl, hbefore, hmember⟩
        exact .inr ⟨result, hfirst, bind_eq_error_iff.2 (.inl hrest)⟩

/-- There are all results if there is one for each member. -/
theorem exists_mapM_eq_ok_iff {f : α → Except ε β} {members : List α} :
    (∃ results, members.mapM f = .ok results) ↔
      ∀ member ∈ members, ∃ result, f member = .ok result := by
  constructor
  · intro hexists member hmem
    obtain ⟨results, hresults⟩ := hexists
    cases hmember : f member with
    | ok result => exact ⟨result, rfl⟩
    | error error =>
      obtain ⟨first, hfirst⟩ := exists_mapM_eq_error hmem hmember
      cases hresults.symm.trans hfirst
  · intro hall
    cases houtcome : members.mapM f with
    | ok results => exact ⟨results, rfl⟩
    | error error =>
      obtain ⟨before, member, after, rfl, -, hmember⟩ := mapM_eq_error_iff.1 houtcome
      obtain ⟨result, hresult⟩ := hall member (by simp)
      cases hresult.symm.trans hmember

/-- Results can be changed one by one or all together. -/
theorem map_mapM {γ : Type} (f : α → Except ε β) (g : β → γ) (members : List α) :
    (members.mapM f).map (List.map g) = members.mapM fun member ↦ (f member).map g := by
  induction members with
  | nil => rfl
  | cons member rest ih =>
    rw [List.mapM_cons, List.mapM_cons, ← ih]
    cases f member with
    | error error => rfl
    | ok result => cases rest.mapM f <;> rfl

/-- Members that have the same outcome one by one have the same outcome all together. -/
theorem mapM_eq_of_forall₂ {γ : Type} {r : α → γ → Prop} {f : α → Except ε β}
    {g : γ → Except ε β} {members : List α} {others : List γ} (h : List.Forall₂ r members others)
    (hsame : ∀ member other, r member other → f member = g other) :
    members.mapM f = others.mapM g := by
  induction h with
  | nil => rfl
  | cons hmember _ ih => rw [List.mapM_cons, List.mapM_cons, hsame _ _ hmember, ih]

/-! ## Without a result -/

theorem bind_of_eq_some {result? : Option α} {result : α} {next? : α → Option β} {last : β}
    (h : result? = some result) (hnext : next? result = some last) :
    result? >>= next? = some last := by
  rw [h]
  exact hnext

/-- Where there are all results, there is one for each member. -/
theorem exists_of_mem_mapM {f? : α → Option β} {members : List α} {results : List β} {member : α}
    (h : members.mapM f? = some results) (hmember : member ∈ members) :
    ∃ result, f? member = some result := by
  induction members generalizing results with
  | nil => cases hmember
  | cons first rest ih =>
    rw [List.mapM_cons, Option.bind_eq_bind, Option.bind_eq_some_iff] at h
    obtain ⟨result, hfirst, hrest⟩ := h
    obtain ⟨others, hothers, -⟩ := Option.bind_eq_some_iff.1 hrest
    rcases List.mem_cons.1 hmember with rfl | hmember
    · exact ⟨result, hfirst⟩
    · exact ih hothers hmember

end IndexedSearch
