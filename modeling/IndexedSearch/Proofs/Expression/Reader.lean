import IndexedSearch.Proofs.Expression.Spelling

/-!
# Reading expressions

The grammar of expressions, read from left to right. A level is a run of factors with connectives
between them, a factor is an atom or a level in parentheses, and an atom is a comparison, a range,
a membership or a call. The `AND` of a range belongs to its atom, and the parentheses of a
membership or a call are not those of a level. Reading undoes spelling, with whatever is written
behind a factor left over.
-/

namespace IndexedSearch

namespace Filter.Operator

/-- The operator is a sign between a path and an operand. -/
def isComparison : Operator → Bool
  | eq | ne | lt | le | gt | ge => true
  | _ => false

/-- The operator is called with a path and operands. -/
def isFunction : Operator → Bool
  | beginsWith | contains | .exists | notExists => true
  | _ => false

end Filter.Operator

namespace Expression

open IndexedSearch.Filter (Operator)

variable {ν ω : Type}

/-- The atom has a path, and as many operands as its operator takes. -/
def Atom.IsValid (atom : Atom ν ω) : Prop :=
  atom.path ≠ [] ∧ atom.operator.arity.admits atom.operands.length = true

/-! ## Atoms -/

/-- Reads what a path has behind its first name. -/
def readNames : List Token → List String × List Token
  | .dot :: .name name :: rest => (name :: (readNames rest).1, (readNames rest).2)
  | rest => ([], rest)

/-- Reads a path. -/
def readPath? : List Token → Option (List String × List Token)
  | .name root :: rest => some (root :: (readNames rest).1, (readNames rest).2)
  | _ => none

/-- Reads operands, each behind a comma, up to the closing parenthesis. -/
def readOperands? : List Token → Option (List String × List Token)
  | .closing :: rest => some ([], rest)
  | .comma :: .value operand :: rest => do
    let (operands, rest) ← readOperands? rest
    return (operand :: operands, rest)
  | _ => none

/-- Reads what an atom has behind its path. -/
def readPredicate? (path : List String) : List Token → Option (Written × List Token)
  | .operator .between :: .value low :: .connective .and :: .value high :: rest =>
    some (⟨path, .between, [low, high]⟩, rest)
  | .operator .isIn :: .opening :: .value first :: rest => do
    let (others, rest) ← readOperands? rest
    return (⟨path, .isIn, first :: others⟩, rest)
  | .operator operator :: .value operand :: rest =>
    if operator.isComparison then some (⟨path, operator, [operand]⟩, rest) else none
  | _ => none

/-- Reads an atom. -/
def readAtom? : List Token → Option (Written × List Token)
  | .operator operator :: .opening :: rest => do
    let (path, rest) ← readPath? rest
    let (operands, rest) ← readOperands? rest
    if operator.isFunction && operator.arity.admits operands.length then
      return (⟨path, operator, operands⟩, rest)
    else none
  | tokens => do
    let (path, rest) ← readPath? tokens
    readPredicate? path rest

/-! ## Levels -/

namespace Factor

mutual

/-- Reads a factor. The number bounds how deep it can be nested and how long it can be. -/
def read? : Nat → List Token → Option (Factor Written × List Token)
  | bound + 1, .opening :: rest => do
    let (first, rest) ← read? bound rest
    match readRest? bound rest with
    | some (others, .closing :: rest) => some (parens first others, rest)
    | _ => none
  | _, tokens => (readAtom? tokens).map fun (value, rest) ↦ (atom value, rest)

/-- Reads factors as long as there is a connective before them. -/
def readRest? : Nat → List Token → Option (List (Connective × Factor Written) × List Token)
  | bound + 1, .connective connective :: rest => do
    let (factor, rest) ← read? bound rest
    let (others, rest) ← readRest? bound rest
    return ((connective, factor) :: others, rest)
  | _, rest => some ([], rest)

end

end Factor

/-- Reads a level that nothing stands behind. -/
def Level.ofTokens? (tokens : List Token) : Option (Level Written) := do
  let (first, rest) ← Factor.read? tokens.length tokens
  match Factor.readRest? tokens.length rest with
  | some (others, []) => some ⟨first, others⟩
  | _ => none

/-- Reads the text of an expression. -/
def Level.ofText? (text : String) : Option (Level Written) := Level.ofTokens? (scan text)

/-! ## Reading what was spelled -/

theorem intercalate_cons {α : Type} (separator first : List α) (rest : List (List α)) :
    separator.intercalate (first :: rest) = first ++ rest.flatMap (separator ++ ·) := by
  induction rest generalizing first with
  | nil => simp
  | cons next rest ih => rw [List.intercalate_cons_cons, ih]; simp

theorem readNames_append (names : List String) {rest : List Token}
    (hrest : rest.head? ≠ some .dot) :
    readNames (names.flatMap (fun name ↦ [.dot, .name name]) ++ rest) = (names, rest) := by
  induction names with
  | nil =>
    rw [List.flatMap_nil, List.nil_append, readNames.eq_def]
    split
    · simp at hrest
    · rfl
  | cons name names ih => simp [readNames, ih]

theorem readPath?_pathTokens {path : List String} (hpath : path ≠ []) {rest : List Token}
    (hrest : rest.head? ≠ some .dot) :
    readPath? (pathTokens path ++ rest) = some (path, rest) := by
  obtain ⟨root, inner, rfl⟩ := List.exists_cons_of_ne_nil hpath
  have htokens : pathTokens (root :: inner) =
      .name root :: inner.flatMap fun name ↦ [.dot, .name name] := by
    simp [pathTokens, intercalate_cons, List.flatMap_map]
  rw [htokens, List.cons_append, readPath?, readNames_append inner hrest]

theorem readOperands?_append (operands : List String) (rest : List Token) :
    readOperands? (operands.flatMap (fun operand ↦ [.comma, .value operand]) ++ .closing :: rest) =
      some (operands, rest) := by
  induction operands with
  | nil => simp [readOperands?]
  | cons operand operands ih => simp [readOperands?, ih]

/-- The operands of a call or a membership, behind what comes first in its parentheses. -/
theorem intercalate_operandTokens (first : List Token) (operands : List String) :
    [Token.comma].intercalate (first :: operandTokens operands) =
      first ++ operands.flatMap fun operand ↦ [.comma, .value operand] := by
  simp [intercalate_cons, operandTokens, List.flatMap_map]

/-- What begins with a path is read as a path and a predicate. -/
theorem readAtom?_pathTokens {path : List String} (hpath : path ≠ []) {rest : List Token}
    (hrest : rest.head? ≠ some .dot) :
    readAtom? (pathTokens path ++ rest) = readPredicate? path rest := by
  have hread := readPath?_pathTokens hpath hrest
  obtain ⟨root, inner, rfl⟩ := List.exists_cons_of_ne_nil hpath
  have hhead : ∃ tail, pathTokens (root :: inner) ++ rest = .name root :: tail := by
    simp [pathTokens, intercalate_cons]
  rcases hhead with ⟨tail, htail⟩
  rw [htail] at hread ⊢
  simp [readAtom?, hread]

theorem readAtom?_comparison {path : List String} (hpath : path ≠ []) {operator : Operator}
    (hoperator : operator.isComparison = true) (operand : String) (rest : List Token) :
    readAtom? (pathTokens path ++ [.operator operator] ++ [.value operand] ++ rest) =
      some (⟨path, operator, [operand]⟩, rest) := by
  rw [List.append_assoc, List.append_assoc, readAtom?_pathTokens hpath (by simp)]
  cases operator <;> simp_all [readPredicate?, Operator.isComparison]

theorem readAtom?_call {path : List String} (hpath : path ≠ []) {operator : Operator}
    (hoperator : operator.isFunction = true) {operands : List String}
    (hoperands : operator.arity.admits operands.length = true) (rest : List Token) :
    readAtom? ([.operator operator, .opening] ++
        [Token.comma].intercalate (pathTokens path :: operandTokens operands) ++
          [.closing] ++ rest) =
      some (⟨path, operator, operands⟩, rest) := by
  have hdot : (operands.flatMap (fun operand ↦ [Token.comma, .value operand]) ++
      .closing :: rest).head? ≠ some .dot := by
    cases operands <;> simp
  have htokens : [.operator operator, .opening] ++
      [Token.comma].intercalate (pathTokens path :: operandTokens operands) ++ [.closing] ++ rest =
      .operator operator :: .opening :: (pathTokens path ++
        (operands.flatMap (fun operand ↦ [.comma, .value operand]) ++ .closing :: rest)) := by
    simp [intercalate_operandTokens]
  rw [htokens, readAtom?, readPath?_pathTokens hpath hdot]
  simp [readOperands?_append, hoperator, hoperands]

theorem readAtom?_between {path : List String} (hpath : path ≠ []) (low high : String)
    (rest : List Token) :
    readAtom? (pathTokens path ++ [.operator .between] ++
        [Token.connective .and].intercalate (operandTokens [low, high]) ++ rest) =
      some (⟨path, .between, [low, high]⟩, rest) := by
  rw [List.append_assoc, List.append_assoc, readAtom?_pathTokens hpath (by simp)]
  simp [operandTokens, readPredicate?]

theorem readAtom?_isIn {path : List String} (hpath : path ≠ []) (first : String)
    (others : List String) (rest : List Token) :
    readAtom? (pathTokens path ++ [.operator .isIn, .opening] ++
        [Token.comma].intercalate (operandTokens (first :: others)) ++ [.closing] ++ rest) =
      some (⟨path, .isIn, first :: others⟩, rest) := by
  have htokens : [Token.comma].intercalate (operandTokens (first :: others)) =
      .value first :: others.flatMap fun operand ↦ [.comma, .value operand] :=
    intercalate_operandTokens [.value first] others
  rw [List.append_assoc, List.append_assoc, List.append_assoc,
    readAtom?_pathTokens hpath (by simp), htokens]
  simp [readPredicate?, readOperands?_append]

/-- A valid atom is read back, whatever is written behind it. -/
theorem readAtom?_tokens {atom : Written} (h : atom.IsValid) (rest : List Token) :
    readAtom? (atom.tokens ++ rest) = some (atom, rest) := by
  rcases atom with ⟨path, operator, operands⟩
  rcases h with ⟨hpath, harity⟩
  cases operator with
  | eq | ne | lt | le | gt | ge =>
    have hlength : operands.length = 1 := of_decide_eq_true harity
    obtain ⟨operand, rfl⟩ := List.length_eq_one_iff.1 hlength
    exact readAtom?_comparison hpath rfl operand rest
  | between =>
    have hlength : operands.length = 2 := of_decide_eq_true harity
    obtain ⟨low, high, rfl⟩ := List.length_eq_two.1 hlength
    exact readAtom?_between hpath low high rest
  | isIn =>
    have hlength : 1 ≤ operands.length := of_decide_eq_true harity
    obtain ⟨first, others, rfl⟩ := List.exists_cons_of_length_pos hlength
    exact readAtom?_isIn hpath first others rest
  | beginsWith | contains | «exists» | notExists => exact readAtom?_call hpath rfl harity rest

/-! ## Reading levels back -/

/-- An atom begins with a name or an operator. -/
theorem head?_tokens_ne_opening {atom : Written} (h : atom.IsValid) (rest : List Token) :
    (atom.tokens ++ rest).head? ≠ some .opening := by
  intro hhead
  obtain ⟨tail, htail⟩ : ∃ tail, atom.tokens ++ rest = .opening :: tail :=
    ⟨_, (List.eq_cons_of_mem_head? hhead)⟩
  have hread := readAtom?_tokens h rest
  rw [htail] at hread
  simp [readAtom?, readPath?] at hread

namespace Factor

/-- What does not begin with a parenthesis is read as an atom. -/
theorem read?_of_head? (bound : Nat) {tokens : List Token} (h : tokens.head? ≠ some .opening) :
    read? bound tokens = (readAtom? tokens).map fun (value, rest) ↦ (atom value, rest) := by
  rw [read?.eq_def]
  split
  · simp at h
  · rfl

theorem readRest?_of_head? (bound : Nat) {rest : List Token}
    (h : ∀ connective, rest.head? ≠ some (.connective connective)) :
    readRest? bound rest = some ([], rest) := by
  rw [readRest?.eq_def]
  split
  · simp at h
  · rfl

mutual

/-- A factor is read back, whatever is written behind it. -/
theorem read?_tokens (factor : Factor Written) (hvalid : ∀ atom ∈ factor.atoms, atom.IsValid)
    (bound : Nat) (hbound : factor.tokens.length ≤ bound) (rest : List Token) :
    read? bound (factor.tokens ++ rest) = some (factor, rest) := by
  match factor with
  | atom value =>
    have hvalue : value.IsValid := hvalid value (by simp [atoms])
    rw [tokens, read?_of_head? bound (head?_tokens_ne_opening hvalue rest),
      readAtom?_tokens hvalue rest]
    rfl
  | parens first others =>
    simp only [atoms, List.mem_append] at hvalid
    simp only [tokens, List.length_append, List.length_cons, List.length_nil] at hbound
    obtain ⟨bound, rfl⟩ : ∃ inner, bound = inner + 1 := ⟨bound - 1, by omega⟩
    have hfirst := read?_tokens first (fun atom hatom ↦ hvalid atom (.inl hatom)) bound (by omega)
      (restTokens others ++ .closing :: rest)
    have hclosing (connective : Connective) :
        (Token.closing :: rest).head? ≠ some (.connective connective) := by simp
    have hothers := readRest?_tokens others (fun atom hatom ↦ hvalid atom (.inr hatom)) bound
      (by omega) hclosing
    have htokens : tokens (parens first others) ++ rest =
        .opening :: (tokens first ++ (restTokens others ++ .closing :: rest)) := by
      simp [tokens]
    rw [htokens, read?, hfirst]
    simp [hothers]

/-- Factors behind connectives are read back up to where no connective stands. -/
theorem readRest?_tokens (factors : List (Connective × Factor Written))
    (hvalid : ∀ atom ∈ atomsAll factors, atom.IsValid) (bound : Nat)
    (hbound : (restTokens factors).length ≤ bound) {rest : List Token}
    (hrest : ∀ connective, rest.head? ≠ some (.connective connective)) :
    readRest? bound (restTokens factors ++ rest) = some (factors, rest) := by
  match factors with
  | [] => exact readRest?_of_head? bound hrest
  | (connective, factor) :: others =>
    simp only [atomsAll, List.mem_append] at hvalid
    simp only [restTokens, List.length_append, List.length_cons] at hbound
    obtain ⟨bound, rfl⟩ : ∃ inner, bound = inner + 1 := ⟨bound - 1, by omega⟩
    have hfactor := read?_tokens factor (fun atom hatom ↦ hvalid atom (.inl hatom)) bound (by omega)
      (restTokens others ++ rest)
    have hothers := readRest?_tokens others (fun atom hatom ↦ hvalid atom (.inr hatom)) bound
      (by omega) hrest
    have htokens : restTokens ((connective, factor) :: others) ++ rest =
        .connective connective :: (tokens factor ++ (restTokens others ++ rest)) := by
      simp [restTokens]
    rw [htokens, readRest?, hfactor]
    simp [hothers]

end

end Factor

/-- A level of valid atoms is read back from its spelling. -/
theorem Level.ofTokens?_tokens {level : Level Written}
    (hvalid : ∀ atom ∈ level.atoms, atom.IsValid) :
    Level.ofTokens? level.tokens = some level := by
  simp only [Level.atoms, List.mem_append] at hvalid
  have hfirst := Factor.read?_tokens level.first (fun atom hatom ↦ hvalid atom (.inl hatom))
    level.tokens.length (by simp [Level.tokens]) (Factor.restTokens level.rest)
  have hend (connective : Connective) :
      ([] : List Token).head? ≠ some (.connective connective) := by simp
  have hrest := Factor.readRest?_tokens level.rest (fun atom hatom ↦ hvalid atom (.inr hatom))
    level.tokens.length (by simp [Level.tokens]) hend
  rw [List.append_nil] at hrest
  rw [← Level.tokens] at hfirst
  simp [Level.ofTokens?, hfirst, hrest]

end Expression

end IndexedSearch
