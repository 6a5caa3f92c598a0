import IndexedSearch.Proofs.Expression.Spelling

/-!
# Looking placeholders up

The store replaces every placeholder of an expression by what the tables beside it hold. If the
tables hold the names and operands of a level under the numbers that the level gives them, looking
the placeholders of the numbered level up gives the level back.
-/

namespace IndexedSearch.Expression

variable {α β : Type}

/-- The atom with its placeholders looked up in two tables. -/
def Written.resolve? (names : NameMap String) (values : NameMap Wire.Value) (atom : Written) :
    Option Resolved := do
  let path ← atom.path.mapM names.get?
  let operands ← atom.operands.mapM values.get?
  return { path, operator := atom.operator, operands }

namespace Factor

mutual

/-- The factor with every atom changed, if all of them can be. -/
def traverse? (f : α → Option β) : Factor α → Option (Factor β)
  | atom value => (f value).map atom
  | parens first rest => do return parens (← traverse? f first) (← traverseAll? f rest)

/-- Factors with every atom changed, if all of them can be. -/
def traverseAll? (f : α → Option β) :
    List (Connective × Factor α) → Option (List (Connective × Factor β))
  | [] => some []
  | (connective, factor) :: rest => do
    return (connective, ← traverse? f factor) :: (← traverseAll? f rest)

end

end Factor

/-- The level with every atom changed, if all of them can be. -/
def Level.traverse? (f : α → Option β) (level : Level α) : Option (Level β) := do
  return ⟨← level.first.traverse? f, ← Factor.traverseAll? f level.rest⟩

/-! ## Tables of placeholders -/

/-- The table has the entries under the placeholders of the numbers from `start` on. -/
def Tabulates (table : NameMap α) (placeholder : Nat → String) (start : Nat) (entries : List α) :
    Prop :=
  (List.range' start entries.length).map (fun index ↦ table.get? (placeholder index)) =
    entries.map some

theorem tabulates_append {table : NameMap α} {placeholder : Nat → String} {start : Nat}
    {entries others : List α} :
    Tabulates table placeholder start (entries ++ others) ↔
      Tabulates table placeholder start entries ∧
        Tabulates table placeholder (start + entries.length) others := by
  unfold Tabulates
  have hrange : List.range' start (entries ++ others).length =
      List.range' start entries.length ++
        List.range' (start + entries.length) others.length := by
    rw [List.length_append, List.range'_append_1]
  rw [hrange, List.map_append, List.map_append]
  constructor
  · intro h
    exact List.append_inj h (by simp)
  · intro hboth
    rcases hboth with ⟨hentries, hothers⟩
    rw [hentries, hothers]

/-- A table has its entries under the placeholders of their numbers. -/
theorem Tabulates.get?_eq {table : NameMap α} {placeholder : Nat → String} {entries : List α}
    (h : Tabulates table placeholder 0 entries) {number : Nat} (hnumber : number < entries.length) :
    table.get? (placeholder number) = some entries[number] := by
  have hentry := congrArg (·[number]?) h
  simpa [hnumber] using hentry

theorem Tabulates.mapM_get? {table : NameMap α} {placeholder : Nat → String} {start : Nat}
    {entries : List α} (h : Tabulates table placeholder start entries) :
    ((List.range' start entries.length).map placeholder).mapM table.get? = some entries := by
  induction entries generalizing start with
  | nil => simp
  | cons entry rest ih =>
    have hboth : Tabulates table placeholder start ([entry] ++ rest) := h
    obtain ⟨hfirst, hrest⟩ := tabulates_append.1 hboth
    have hentry : table.get? (placeholder start) = some entry := by simpa [Tabulates] using hfirst
    have hmap : ((List.range' (start + 1) rest.length).map placeholder).mapM table.get? =
        some rest := ih hrest
    calc
      _ = (placeholder start :: (List.range' (start + 1) rest.length).map placeholder).mapM
          table.get? := by
        rw [List.length_cons, List.range'_succ, List.map_cons]
      _ = some (entry :: rest) := by
        rw [List.mapM_cons, hentry, hmap]
        rfl

/-- A table has its entries under consecutive placeholders. -/
theorem Tabulates.map_get? {table : NameMap α} {placeholder : Nat → String}
    {start : Nat} {entries : List α} (h : Tabulates table placeholder start entries) :
    (List.range' start entries.length).map
        (fun index ↦ (placeholder index, table.get? (placeholder index))) =
      (entries.zipIdx start).map fun (entry, index) ↦ (placeholder index, some entry) := by
  induction entries generalizing start with
  | nil => rfl
  | cons entry rest ih =>
    have hboth : Tabulates table placeholder start ([entry] ++ rest) := h
    obtain ⟨hfirst, hrest⟩ := tabulates_append.1 hboth
    have hentry : table.get? (placeholder start) = some entry := by simpa [Tabulates] using hfirst
    rw [List.length_cons, List.range'_succ, List.map_cons, List.zipIdx_cons, List.map_cons,
      hentry]
    exact congrArg _ (ih hrest)

/-! ## Numbered levels -/

section

variable {names : NameMap String} {values : NameMap Wire.Value}

/-- Two tables hold the names and operands of atoms that are numbered from a counter on. -/
structure Hold (names : NameMap String) (values : NameMap Wire.Value) (counter : Counter)
    (atoms : List Resolved) : Prop where
  names : Tabulates names namePlaceholder counter.name (atoms.flatMap Atom.path)
  values : Tabulates values valuePlaceholder counter.value (atoms.flatMap Atom.operands)

theorem hold_append {counter : Counter} {atoms others : List Resolved} :
    Hold names values counter (atoms ++ others) ↔
      Hold names values counter atoms ∧ Hold names values (counter.after atoms) others := by
  constructor
  · intro hboth
    rcases hboth with ⟨hnames, hvalues⟩
    rw [List.flatMap_append, tabulates_append] at hnames hvalues
    exact ⟨⟨hnames.1, hvalues.1⟩, ⟨hnames.2, hvalues.2⟩⟩
  · intro hboth
    rcases hboth with ⟨⟨hnames, hvalues⟩, ⟨hothers, hmore⟩⟩
    constructor
    · rw [List.flatMap_append, tabulates_append]
      exact ⟨hnames, hothers⟩
    · rw [List.flatMap_append, tabulates_append]
      exact ⟨hvalues, hmore⟩

theorem Hold.resolve?_number {counter : Counter} {atom : Resolved}
    (h : Hold names values counter [atom]) :
    Written.resolve? names values (atom.number counter).written = some atom := by
  rcases h with ⟨hnames, hvalues⟩
  simp only [List.flatMap_cons, List.flatMap_nil, List.append_nil] at hnames hvalues
  simp [Written.resolve?, Numbered.written, Atom.number, hnames.mapM_get?, hvalues.mapM_get?]

namespace Factor

mutual

theorem traverse?_number (factor : Factor Resolved) {counter : Counter}
    (h : Hold names values counter factor.atoms) :
    traverse? (Written.resolve? names values) ((factor.number counter).map Numbered.written) =
      some factor := by
  match factor with
  | atom value =>
    rw [number, map, traverse?, Hold.resolve?_number h]
    rfl
  | parens first rest =>
    obtain ⟨hfirst, hrest⟩ := hold_append.1 h
    rw [number, map, traverse?, traverse?_number first hfirst, traverseAll?_numberAll rest hrest]
    rfl

theorem traverseAll?_numberAll (rest : List (Connective × Factor Resolved)) {counter : Counter}
    (h : Hold names values counter (atomsAll rest)) :
    traverseAll? (Written.resolve? names values)
      (mapAll Numbered.written (numberAll counter rest)) = some rest := by
  match rest with
  | [] => rfl
  | (connective, factor) :: rest =>
    obtain ⟨hfactor, hrest⟩ := hold_append.1 h
    rw [numberAll, mapAll, traverseAll?, traverse?_number factor hfactor,
      traverseAll?_numberAll rest hrest]
    rfl

end

end Factor

/-- The placeholders of a numbered level stand for what the level has in their places. -/
theorem Level.traverse?_number (level : Level Resolved) {counter : Counter}
    (h : Hold names values counter level.atoms) :
    Level.traverse? (Written.resolve? names values)
      ((level.number counter).map Numbered.written) = some level := by
  obtain ⟨hfirst, hrest⟩ := hold_append.1 h
  rw [Level.number, Level.map, Level.traverse?, Factor.traverse?_number level.first hfirst,
    Factor.traverseAll?_numberAll level.rest hrest]
  rfl

end

end IndexedSearch.Expression
