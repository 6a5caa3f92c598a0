/-!
# Maps from names, in the order of the names

A map from names is the list of its entries, in strictly increasing order of the names by code
points. `NameMap.insert` keeps a map sorted and replaces the value of a name that is present;
looking a name up sees exactly the last value inserted for it.
-/

namespace IndexedSearch

/-- The entries of a map from names. -/
abbrev NameMap (α : Type) := List (String × α)

namespace NameMap

variable {α β : Type}

/-- Every name stands before all names that follow it. -/
def Sorted (entries : NameMap α) : Prop :=
  entries.Pairwise fun earlier later ↦ earlier.1 < later.1

/-- The value of a name. -/
def get? (entries : NameMap α) (name : String) : Option α :=
  List.lookup name entries

/-- The name has a value. -/
def contains (entries : NameMap α) (name : String) : Bool :=
  (entries.get? name).isSome

/-- Sets the value of a name. -/
def insert (name : String) (value : α) : NameMap α → NameMap α
  | [] => [(name, value)]
  | (other, present) :: rest =>
    if name = other then (name, value) :: rest
    else if name < other then (name, value) :: (other, present) :: rest
    else (other, present) :: insert name value rest

/-- The map of the given entries; of several values of one name the last one stays. -/
def ofList (entries : List (String × α)) : NameMap α :=
  entries.foldl (fun built entry ↦ built.insert entry.1 entry.2) []

/-- Changes every value and keeps the names. -/
def mapValues (f : α → β) (entries : NameMap α) : NameMap β :=
  entries.map fun (name, value) ↦ (name, f value)

/-! ## Order -/

theorem mem_insert {entries : NameMap α} {name : String} {value : α} {entry : String × α}
    (h : entry ∈ entries.insert name value) : entry = (name, value) ∨ entry ∈ entries := by
  induction entries with
  | nil => simpa [insert] using h
  | cons head rest ih =>
    unfold insert at h
    split at h
    · rcases List.mem_cons.1 h with h | h
      · exact .inl h
      · exact .inr (List.mem_cons_of_mem _ h)
    · split at h
      · exact List.mem_cons.1 h
      · rcases List.mem_cons.1 h with h | h
        · exact .inr (h ▸ List.mem_cons_self)
        · exact (ih h).imp_right (List.mem_cons_of_mem _)

/-- Setting a value keeps a map sorted. -/
theorem Sorted.insert {entries : NameMap α} (h : entries.Sorted) (name : String) (value : α) :
    (entries.insert name value).Sorted := by
  induction entries with
  | nil => simp [NameMap.insert, Sorted]
  | cons head rest ih =>
    obtain ⟨hhead, hrest⟩ := List.pairwise_cons.1 h
    unfold NameMap.insert
    split
    · rename_i heq
      subst heq
      exact List.pairwise_cons.2 ⟨hhead, hrest⟩
    · split
      · rename_i hlt
        refine List.pairwise_cons.2 ⟨fun entry hentry ↦ ?_, h⟩
        rcases List.mem_cons.1 hentry with rfl | hentry
        · exact hlt
        · exact String.lt_trans hlt (hhead entry hentry)
      · rename_i hne hnlt
        refine List.pairwise_cons.2 ⟨fun entry hentry ↦ ?_, ih hrest⟩
        rcases mem_insert hentry with rfl | hentry
        · exact Std.lt_of_le_of_ne (String.not_lt.1 hnlt) fun heq ↦ hne heq.symm
        · exact hhead entry hentry

/-- The map of any entries is sorted. -/
theorem sorted_ofList (entries : List (String × α)) : (ofList entries).Sorted := by
  have hfold (built : NameMap α) (h : built.Sorted) :
      (entries.foldl (fun built entry ↦ built.insert entry.1 entry.2) built).Sorted := by
    induction entries generalizing built with
    | nil => exact h
    | cons entry rest ih => exact ih _ (h.insert entry.1 entry.2)
  exact hfold [] List.Pairwise.nil

/-! ## Looking up -/

theorem get?_insert_self (entries : NameMap α) (name : String) (value : α) :
    (entries.insert name value).get? name = some value := by
  induction entries with
  | nil => simp [insert, get?]
  | cons entry rest ih =>
    obtain ⟨other, present⟩ := entry
    unfold insert
    split
    · simp [get?]
    · split
      · simp [get?]
      · rename_i hne _
        have hbeq : (name == other) = false := by simpa using hne
        simpa [get?, List.lookup_cons, hbeq] using ih

theorem get?_insert_of_ne (entries : NameMap α) {name other : String} (value : α)
    (h : other ≠ name) : (entries.insert name value).get? other = entries.get? other := by
  have hbeq : (other == name) = false := by simpa using h
  induction entries with
  | nil => simp [insert, get?, List.lookup_cons, hbeq]
  | cons entry rest ih =>
    obtain ⟨head, present⟩ := entry
    unfold insert
    split
    · rename_i heq
      subst heq
      simp [get?, List.lookup_cons, hbeq]
    · split
      · simp [get?, List.lookup_cons, hbeq]
      · simp only [get?, List.lookup_cons] at ih ⊢
        split
        · rfl
        · exact ih

end NameMap

end IndexedSearch
