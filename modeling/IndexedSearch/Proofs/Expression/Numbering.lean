import IndexedSearch.Proofs.Expression.Spelling

/-!
# Numbers in reading order

Numbering the atoms of a level one after another is numbering the level, so that its names and its
operands get consecutive numbers from left to right. The tokens of a level hold a placeholder for
each of its names and operands, in the same order.
-/

namespace IndexedSearch.Expression

variable {α β ν ω : Type}

/-- What a placeholder stands for. -/
inductive Slot where
  | name
  | value

namespace Slot

/-- The placeholder of a number. -/
def placeholder : Slot → Nat → String
  | name => namePlaceholder
  | value => valuePlaceholder

/-- The placeholder of a token. -/
def read? : Slot → Token → Option String
  | name => Token.name?
  | value => Token.value?

/-- The next free number. -/
def next : Slot → Counter → Nat
  | name => Counter.name
  | value => Counter.value

/-- The numbers in an atom. -/
def numbers : Slot → Numbered → List Nat
  | name => Atom.path
  | value => Atom.operands

/-- How many places there are in atoms. -/
def count (slot : Slot) (atoms : List (Atom ν ω)) : Nat :=
  match slot with
  | name => (atoms.flatMap Atom.path).length
  | value => (atoms.flatMap Atom.operands).length

theorem count_append (slot : Slot) (atoms others : List (Atom ν ω)) :
    slot.count (atoms ++ others) = slot.count atoms + slot.count others := by
  cases slot <;> simp [count]

theorem next_start (slot : Slot) : slot.next Counter.start = 0 := by
  cases slot <;> rfl

theorem next_after (slot : Slot) (counter : Counter) (atoms : List (Atom ν ω)) :
    slot.next (counter.after atoms) = slot.next counter + slot.count atoms := by
  cases slot <;> rfl

theorem numbers_number (slot : Slot) (counter : Counter) (atom : Atom ν ω) :
    slot.numbers (atom.number counter) =
      List.range' (slot.next counter) (slot.count [atom]) := by
  cases slot <;> simp [numbers, next, count, Atom.number]

end Slot

/-! ## Atoms -/

/-- Atoms numbered one after another. -/
def numberAtoms (counter : Counter) : List (Atom ν ω) → List Numbered
  | [] => []
  | atom :: rest => atom.number counter :: numberAtoms (counter.after [atom]) rest

theorem after_append (counter : Counter) (atoms others : List (Atom ν ω)) :
    counter.after (atoms ++ others) = (counter.after atoms).after others := by
  simp [Counter.after, Nat.add_assoc]

theorem numberAtoms_append (counter : Counter) (atoms others : List (Atom ν ω)) :
    numberAtoms counter (atoms ++ others) =
      numberAtoms counter atoms ++ numberAtoms (counter.after atoms) others := by
  induction atoms generalizing counter with
  | nil => rfl
  | cons atom rest ih =>
    rw [List.cons_append, numberAtoms, ih, numberAtoms, ← after_append]
    rfl

/-- The numbers in numbered atoms are consecutive. -/
theorem flatMap_numbers_numberAtoms (slot : Slot) (counter : Counter)
    (atoms : List (Atom ν ω)) :
    (numberAtoms counter atoms).flatMap slot.numbers =
      List.range' (slot.next counter) (slot.count atoms) := by
  induction atoms generalizing counter with
  | nil => cases slot <;> rfl
  | cons atom rest ih =>
    calc
      _ = slot.numbers (atom.number counter) ++
          List.range' (slot.next (counter.after [atom])) (slot.count rest) := by
        rw [numberAtoms, List.flatMap_cons, ih]
      _ = List.range' (slot.next counter) (slot.count [atom]) ++
          List.range' (slot.next counter + slot.count [atom]) (slot.count rest) := by
        rw [Slot.numbers_number, Slot.next_after]
      _ = List.range' (slot.next counter) (slot.count [atom] + slot.count rest) :=
        List.range'_append_1
      _ = _ := by rw [← Slot.count_append, List.singleton_append]

/-- The names of numbered paths have consecutive numbers. -/
theorem flatten_numberPaths (next : Nat) (paths : List (List ν)) :
    (numberPaths next paths).flatten = List.range' next paths.flatten.length := by
  induction paths generalizing next with
  | nil => rfl
  | cons path rest ih =>
    calc
      _ = List.range' next path.length ++
          List.range' (next + path.length) rest.flatten.length := by
        rw [numberPaths, List.flatten_cons, ih]
      _ = List.range' next (path.length + rest.flatten.length) := List.range'_append_1
      _ = _ := by rw [List.flatten_cons, List.length_append]

/-! ## Levels -/

namespace Factor

mutual

theorem atoms_number (counter : Counter) (factor : Factor (Atom ν ω)) :
    (factor.number counter).atoms = numberAtoms counter factor.atoms := by
  match factor with
  | atom value => rfl
  | parens first rest =>
    rw [number, atoms, atoms, numberAtoms_append, atoms_number counter first,
      atomsAll_numberAll (counter.after first.atoms) rest]

theorem atomsAll_numberAll (counter : Counter)
    (factors : List (Connective × Factor (Atom ν ω))) :
    atomsAll (numberAll counter factors) = numberAtoms counter (atomsAll factors) := by
  match factors with
  | [] => rfl
  | (connective, factor) :: rest =>
    rw [numberAll, atomsAll, atomsAll, numberAtoms_append, atoms_number counter factor,
      atomsAll_numberAll (counter.after factor.atoms) rest]

end

mutual

theorem atoms_map (f : α → β) (factor : Factor α) : (factor.map f).atoms = factor.atoms.map f := by
  match factor with
  | atom value => rfl
  | parens first rest =>
    rw [map, atoms, atoms, List.map_append, atoms_map f first, atomsAll_mapAll f rest]

theorem atomsAll_mapAll (f : α → β) (factors : List (Connective × Factor α)) :
    atomsAll (mapAll f factors) = (atomsAll factors).map f := by
  match factors with
  | [] => rfl
  | (connective, factor) :: rest =>
    rw [mapAll, atomsAll, atomsAll, List.map_append, atoms_map f factor, atomsAll_mapAll f rest]

end

end Factor

namespace Level

theorem atoms_number (counter : Counter) (level : Level (Atom ν ω)) :
    (level.number counter).atoms = numberAtoms counter level.atoms := by
  rw [number, atoms, atoms, numberAtoms_append, Factor.atoms_number, Factor.atomsAll_numberAll]

theorem atoms_map (f : α → β) (level : Level α) : (level.map f).atoms = level.atoms.map f := by
  rw [map, atoms, atoms, List.map_append, Factor.atoms_map, Factor.atomsAll_mapAll]

end Level

/-! ## Conjunctions -/

/-- The text of atoms in conjunction, behind a first one. -/
theorem Factor.restText_alsoAtoms (first : String) (counter : Counter)
    (atoms : List (Atom ν ω)) :
    first ++ restText (numberAll counter (alsoAtoms atoms)) =
      " AND ".intercalate (first :: (numberAtoms counter atoms).map Numbered.text) := by
  induction atoms generalizing first counter with
  | nil => exact String.append_empty
  | cons second rest ih =>
    calc
      _ = first ++ (" AND " ++ (second.number counter).text ++
          restText (numberAll (counter.after [second]) (alsoAtoms rest))) := rfl
      _ = first ++ " AND " ++ ((second.number counter).text ++
          restText (numberAll (counter.after [second]) (alsoAtoms rest))) := by
        simp only [String.append_assoc]
      _ = _ := by
        rw [ih, numberAtoms, List.map_cons, String.intercalate_cons_cons]

/-- The text of atoms in conjunction. -/
theorem Level.text_of_conjunction? {counter : Counter} {atoms : List (Atom ν ω)}
    {level : Level (Atom ν ω)} (h : conjunction? atoms = some level) :
    (level.number counter).text =
      " AND ".intercalate ((numberAtoms counter atoms).map Numbered.text) := by
  cases atoms with
  | nil => cases h
  | cons first others =>
    cases h
    exact Factor.restText_alsoAtoms _ _ others

/-! ## Placeholders among tokens -/

/-- The token is a placeholder. -/
def Token.isPlaceholder : Token → Bool
  | name _ | value _ => true
  | _ => false

/-- The placeholders of an atom, in the order in which they are written. -/
def Written.placeholders (atom : Written) : List Token :=
  atom.path.map Token.name ++ atom.operands.map Token.value

theorem filter_intercalate {p : α → Bool} {separator : List α} (h : separator.filter p = [])
    (parts : List (List α)) :
    (separator.intercalate parts).filter p = parts.flatMap (List.filter p) := by
  induction parts with
  | nil => rfl
  | cons part rest ih =>
    cases rest with
    | nil => simp
    | cons next rest =>
      rw [List.intercalate_cons_cons, List.filter_append, List.filter_append, h, ih,
        List.append_nil]
      rfl

theorem filter_pathTokens (path : List String) :
    (pathTokens path).filter Token.isPlaceholder = path.map Token.name := by
  rw [pathTokens, filter_intercalate rfl, List.flatMap_map, List.map_eq_flatMap]
  rfl

theorem flatMap_filter_operandTokens (operands : List String) :
    (operandTokens operands).flatMap (List.filter Token.isPlaceholder) =
      operands.map Token.value := by
  rw [operandTokens, List.flatMap_map, List.map_eq_flatMap]
  rfl

theorem filter_atomTokens (atom : Written) :
    atom.tokens.filter Token.isPlaceholder = atom.placeholders := by
  rcases atom with ⟨path, operator, operands⟩
  have hcomma : [Token.comma].filter Token.isPlaceholder = [] := rfl
  have hand : [Token.connective .and].filter Token.isPlaceholder = [] := rfl
  have hoperator (operator : Filter.Operator) :
      [Token.operator operator].filter Token.isPlaceholder = [] := rfl
  have hopening (operator : Filter.Operator) :
      [Token.operator operator, .opening].filter Token.isPlaceholder = [] := rfl
  have hclosing : [Token.closing].filter Token.isPlaceholder = [] := rfl
  cases operator <;>
    simp only [Written.tokens, Written.placeholders, List.filter_append, filter_pathTokens,
      filter_intercalate hcomma, filter_intercalate hand, flatMap_filter_operandTokens, hoperator,
      hopening, hclosing, List.flatMap_cons, List.append_nil, List.nil_append]

namespace Factor

mutual

theorem filter_tokens (factor : Factor Written) :
    factor.tokens.filter Token.isPlaceholder = factor.atoms.flatMap Written.placeholders := by
  match factor with
  | atom value =>
    rw [tokens, filter_atomTokens, atoms, List.flatMap_singleton]
  | parens first rest =>
    have hopening : [Token.opening].filter Token.isPlaceholder = [] := rfl
    have hclosing : [Token.closing].filter Token.isPlaceholder = [] := rfl
    calc
      _ = (tokens first).filter Token.isPlaceholder ++
          (restTokens rest).filter Token.isPlaceholder := by
        rw [tokens, ← List.singleton_append, List.filter_append, List.filter_append,
          List.filter_append, hopening, hclosing, List.nil_append, List.append_nil]
      _ = _ := by
        rw [filter_tokens first, filter_restTokens rest, atoms, List.flatMap_append]

theorem filter_restTokens (factors : List (Connective × Factor Written)) :
    (restTokens factors).filter Token.isPlaceholder =
      (atomsAll factors).flatMap Written.placeholders := by
  match factors with
  | [] => rfl
  | (connective, factor) :: rest =>
    have hconnective : [Token.connective connective].filter Token.isPlaceholder = [] := rfl
    rw [restTokens, ← List.singleton_append, List.filter_append, List.filter_append, hconnective,
      filter_tokens factor, filter_restTokens rest, atomsAll, List.flatMap_append,
      List.nil_append]

end

end Factor

/-- The placeholders of a level are those of its atoms. -/
theorem Level.filter_tokens (level : Level Written) :
    level.tokens.filter Token.isPlaceholder = level.atoms.flatMap Written.placeholders := by
  rw [tokens, List.filter_append, Factor.filter_tokens, Factor.filter_restTokens, atoms,
    List.flatMap_append]

theorem filterMap_read?_filter (slot : Slot) (tokens : List Token) :
    (tokens.filter Token.isPlaceholder).filterMap slot.read? = tokens.filterMap slot.read? := by
  rw [List.filterMap_filter]
  congr 1
  funext token
  cases slot <;> cases token <;> rfl

theorem filterMap_read?_written (slot : Slot) (atom : Numbered) :
    atom.written.placeholders.filterMap slot.read? =
      (slot.numbers atom).map slot.placeholder := by
  cases slot <;>
    simp [Written.placeholders, Numbered.written, Slot.read?, Slot.numbers, Slot.placeholder,
      List.filterMap_map, Function.comp_def, Token.name?, Token.value?]

/-- The placeholders in the text of a numbered level are numbered in reading order. -/
theorem Level.filterMap_read?_scan_text (slot : Slot) (counter : Counter)
    (level : Level (Atom ν ω)) :
    (scan (level.number counter).text).filterMap slot.read? =
      (List.range' (slot.next counter) (slot.count level.atoms)).map slot.placeholder := by
  calc
    _ = ((level.number counter).map Numbered.written).tokens.filterMap slot.read? := by
      rw [Level.scan_text]
    _ = ((level.number counter).atoms.map Numbered.written).flatMap fun atom ↦
        atom.placeholders.filterMap slot.read? := by
      rw [← filterMap_read?_filter, Level.filter_tokens, List.filterMap_flatMap, Level.atoms_map]
    _ = (level.number counter).atoms.flatMap fun atom ↦
        (slot.numbers atom).map slot.placeholder := by
      rw [List.flatMap_map]
      simp only [filterMap_read?_written]
    _ = ((numberAtoms counter level.atoms).flatMap slot.numbers).map slot.placeholder := by
      rw [Level.atoms_number, List.map_flatMap]
    _ = _ := by rw [flatMap_numbers_numberAtoms]

end IndexedSearch.Expression
