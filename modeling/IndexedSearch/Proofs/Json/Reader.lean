import IndexedSearch.Proofs.Json.Grammar

/-!
# Reading JSON text

A reader of JSON text without a limit on nesting. It gives back the value of every text of the
grammar, so no text has two values.
-/

namespace IndexedSearch.Json

variable {α : Type}

/-! ## The reader -/

def skipBlanks (text : List Char) : List Char := text.dropWhile isBlank

/-- Reads with blanks around what is read. -/
def readPadded? (readOne? : List Char → Option (α × List Char)) (text : List Char) :
    Option (α × List Char) :=
  (readOne? (skipBlanks text)).map fun (one, rest) ↦ (one, skipBlanks rest)

/-- Reads what is separated by commas, up to a closing character, at most so many times. -/
def readParts? (readOne? : List Char → Option (α × List Char)) (close : Char) :
    (bound : Nat) → List Char → Option (List α × List Char)
  | 0, _ => none
  | bound + 1, text => do
    let (one, rest) ← readOne? text
    match rest with
    | [] => none
    | c :: rest =>
      if c = ',' then do
        let (more, rest) ← readParts? readOne? close bound rest
        return (one :: more, rest)
      else if c = close then some ([one], rest)
      else none

/-- Reads what is separated by commas, or nothing, up to a closing character. -/
def readList? (readOne? : List Char → Option (α × List Char)) (close : Char) (text : List Char) :
    Option (List α × List Char) :=
  match skipBlanks text with
  | [] => none
  | c :: rest =>
    if c = close then some ([], rest) else readParts? readOne? close text.length text

/-- Reads a field, its value by a given reader. -/
def readField? (readValue? : List Char → Option (Json × List Char)) (text : List Char) :
    Option ((String × Json) × List Char) := do
  let (name, rest) ← readPadded? readQuoted? text
  match rest with
  | ':' :: rest => do
    let (value, rest) ← readPadded? readValue? rest
    return ((name, value), rest)
  | _ => none

/-- Reads a word that stands for a value. -/
def readWord? (word : List Char) (json : Json) (text : List Char) : Option (Json × List Char) :=
  (word.isPrefixOf? text).map fun rest ↦ (json, rest)

def readNumber? (text : List Char) : Option (Json × List Char) := do
  let (numeral, rest) ← Numeral.scan? text
  let value ← Number.ofNumeral? numeral
  return (number value, rest)

/-- Reads a value whose items and fields are nested less deep than a bound. -/
def readValue? : (bound : Nat) → List Char → Option (Json × List Char)
  | 0, _ => none
  | bound + 1, text =>
    match text with
    | 'n' :: _ => readWord? ['n', 'u', 'l', 'l'] null text
    | 't' :: _ => readWord? ['t', 'r', 'u', 'e'] (bool true) text
    | 'f' :: _ => readWord? ['f', 'a', 'l', 's', 'e'] (bool false) text
    | '"' :: _ => (readQuoted? text).map fun (value, rest) ↦ (string value, rest)
    | '[' :: rest =>
      (readList? (readPadded? (readValue? bound)) ']' rest).map fun (items, rest) ↦
        (array items, rest)
    | '\x7b' :: rest =>
      (readList? (readField? (readValue? bound)) '\x7d' rest).map fun (fields, rest) ↦
        (object fields, rest)
    | _ => readNumber? text

/-- The value of a whole text. No value is nested as deep as its text is long. -/
def ofText? (text : String) : Option Json :=
  match readPadded? (readValue? (text.toList.length + 1)) text.toList with
  | some (json, []) => some json
  | _ => none

/-! ## Blanks -/

variable {json : Json} {one : α} {core text before rest part : List Char}
  {parts : List (List Char)} {readOne? : List Char → Option (α × List Char)}

/-- The text is read in front of everything that does not go on like a numeral. -/
def Reads (readOne? : List Char → Option (α × List Char)) (text : List Char) (one : α) : Prop :=
  ∀ rest, Numeral.Ends rest → readOne? (text ++ rest) = some (one, rest)

/-- The text is read, and with it the blanks behind it. -/
def ReadsPadded (readOne? : List Char → Option (α × List Char)) (text : List Char) (one : α) :
    Prop :=
  ∀ rest, Numeral.Ends rest → readOne? (text ++ rest) = some (one, skipBlanks rest)

theorem skipBlanks_append (h : AreBlanks before) : skipBlanks (before ++ rest) = skipBlanks rest :=
  List.dropWhile_append_of_pos h

theorem skipBlanks_cons {c : Char} (h : isBlank c = false) : skipBlanks (c :: rest) = c :: rest :=
  List.dropWhile_cons_of_neg (by simp [h])

/-- Blanks do not belong to a numeral. -/
theorem ends_append (h : AreBlanks before) (hrest : Numeral.Ends rest) :
    Numeral.Ends (before ++ rest) := by
  cases before with
  | nil => exact hrest
  | cons c before =>
    rintro _ ⟨⟩
    have hc := h c List.mem_cons_self
    simp only [isBlank, Bool.or_eq_true, decide_eq_true_eq] at hc
    rcases hc with ((rfl | rfl) | rfl) | rfl <;> decide

/-- A value starts with a character that closes nothing. -/
theorem IsValue.exists_eq_cons (h : IsValue json text) :
    ∃ c more, text = c :: more ∧ isBlank c = false ∧ c ≠ ']' ∧ c ≠ '\x7d' := by
  cases h with
  | number h =>
    obtain ⟨c, more, rfl, hc⟩ := h.exists_eq_cons
    have hne {other : Char} (hother : ¬ (other = '-' ∨ other.isDigit = true)) : c ≠ other := by
      rintro rfl
      exact hother hc
    refine ⟨c, more, rfl, ?_, hne (by decide), hne (by decide)⟩
    simp [isBlank, hne]
  | string h =>
    obtain ⟨content, -, rfl⟩ := h
    exact ⟨_, _, rfl, by decide⟩
  | _ => exact ⟨_, _, rfl, by decide⟩

/-- A text with blanks around it, in front of others, without the blanks before it. -/
theorem IsPadded.exists_skipBlanks {c : Char} {more : List Char} (hcore : IsPadded (c :: more) text)
    (hc : isBlank c = false) (rest : List Char) :
    ∃ after, AreBlanks after ∧ skipBlanks (text ++ rest) = c :: more ++ (after ++ rest) := by
  obtain ⟨before, after, hbefore, hafter, rfl⟩ := hcore
  refine ⟨after, hafter, ?_⟩
  rw [List.append_assoc, skipBlanks_append hbefore, List.append_assoc, List.cons_append,
    skipBlanks_cons hc]

/-- Blanks around what is read are skipped. -/
theorem readsPadded_of_isPadded {c : Char} {more : List Char} (hcore : IsPadded (c :: more) text)
    (hc : isBlank c = false) (hread : Reads readOne? (c :: more) one) :
    ReadsPadded (readPadded? readOne?) text one := by
  intro rest hrest
  obtain ⟨after, hafter, hskip⟩ := hcore.exists_skipBlanks hc rest
  rw [readPadded?, hskip, hread _ (ends_append hafter hrest)]
  exact congrArg (fun rest ↦ some (one, rest)) (skipBlanks_append hafter)

/-! ## Separated parts -/

theorem length_le_length_join (h : part ∈ parts) : part.length ≤ (Text.join ',' parts).length := by
  induction parts with
  | nil => cases h
  | cons first parts ih =>
    cases parts with
    | nil => rw [List.mem_singleton.1 h, Text.join]
    | cons next parts =>
      rw [Text.join_cons_cons, List.length_append, List.length_cons]
      rcases List.mem_cons.1 h with rfl | h
      · omega
      · have hrest := ih h
        omega

theorem length_le_succ_length_join (parts : List (List Char)) :
    parts.length ≤ (Text.join ',' parts).length + 1 := by
  induction parts with
  | nil => exact Nat.zero_le _
  | cons first parts ih =>
    cases parts with
    | nil => exact Nat.succ_le_succ (Nat.zero_le _)
    | cons next parts =>
      simp only [Text.join_cons_cons, List.length_append, List.length_cons] at ih ⊢
      omega

/-- A part is read up to the next token. -/
theorem ReadsPadded.append_cons {c : Char} (h : ReadsPadded readOne? part one)
    (hc : isBlank c = false) (hends : c.isDigit = false ∧ c ≠ '.' ∧ c ≠ 'e' ∧ c ≠ 'E') :
    readOne? (part ++ c :: rest) = some (one, c :: rest) := by
  rw [h (c :: rest) (by rintro _ ⟨⟩; exact hends), skipBlanks_cons hc]

variable {R : α → List Char → Prop} {all : List α} {close : Char}

/-- What is separated by commas is read part by part. -/
theorem readParts?_append {bound : Nat} (hclose : close = ']' ∨ close = '\x7d') (hne : all ≠ [])
    (h : List.Forall₂ R all parts)
    (hread : ∀ part ∈ parts, ∀ one, R one part → ReadsPadded readOne? part one)
    (hbound : parts.length ≤ bound) :
    readParts? readOne? close bound (Text.join ',' parts ++ close :: rest) = some (all, rest) := by
  induction h generalizing bound with
  | nil => exact absurd rfl hne
  | @cons one part others parts hone hothers ih =>
    obtain ⟨bound, rfl⟩ : ∃ inner, bound = inner + 1 :=
      Nat.exists_eq_add_one_of_ne_zero (Nat.ne_of_gt (Nat.lt_of_lt_of_le (Nat.succ_pos _) hbound))
    obtain ⟨hpart, hrest⟩ := List.forall_mem_cons.1 hread
    cases hothers with
    | nil =>
      have hone : readOne? (part ++ close :: rest) = some (one, close :: rest) := by
        rcases hclose with rfl | rfl
        · exact (hpart one hone).append_cons (by decide) (by decide)
        · exact (hpart one hone).append_cons (by decide) (by decide)
      have hcomma : close ≠ ',' := by rcases hclose with rfl | rfl <;> decide
      rw [Text.join, readParts?, hone]
      simp only [Option.bind_eq_bind, Option.bind_some, if_neg hcomma, if_true]
    | @cons next nextPart others parts hnext hothers =>
      have hone : readOne? (part ++ ',' :: (Text.join ',' (nextPart :: parts) ++ close :: rest)) =
          some (one, ',' :: (Text.join ',' (nextPart :: parts) ++ close :: rest)) :=
        (hpart one hone).append_cons (by decide) (by decide)
      rw [Text.join_cons_cons, List.append_assoc, List.cons_append, readParts?, hone]
      simp only [Option.bind_eq_bind, Option.bind_some, if_true,
        ih (List.cons_ne_nil _ _) hrest (Nat.le_of_succ_le_succ hbound)]
      rfl

/-- What is separated by commas is read if none of its parts starts like the end of it. -/
theorem readList?_append (hclose : close = ']' ∨ close = '\x7d') (hne : all ≠ [])
    (h : List.Forall₂ R all parts)
    (hopens : ∀ one part rest, R one part → ∃ c more, c ≠ close ∧
      skipBlanks (part ++ rest) = c :: more)
    (hread : ∀ part ∈ parts, ∀ one, R one part → ReadsPadded readOne? part one) :
    readList? readOne? close (Text.join ',' parts ++ close :: rest) = some (all, rest) := by
  have hbound : parts.length ≤ (Text.join ',' parts ++ close :: rest).length := by
    have hjoin := length_le_succ_length_join parts
    rw [List.length_append, List.length_cons]
    omega
  have hfirst : ∃ c more, c ≠ close ∧
      skipBlanks (Text.join ',' parts ++ close :: rest) = c :: more := by
    cases h with
    | nil => exact absurd rfl hne
    | @cons one part others parts hone _ =>
      cases parts with
      | nil => exact hopens one part _ hone
      | cons next parts =>
        rw [Text.join_cons_cons, List.append_assoc]
        exact hopens one part _ hone
  obtain ⟨c, more, hc, hskip⟩ := hfirst
  rw [readList?, hskip]
  simp only [if_neg hc]
  exact readParts?_append hclose hne h hread hbound

/-- Blanks alone are nothing. -/
theorem readList?_blanks (hblanks : AreBlanks before) (hclose : close = ']' ∨ close = '\x7d') :
    readList? readOne? close (before ++ close :: rest) = some ([], rest) := by
  have hskip : skipBlanks (before ++ close :: rest) = close :: rest := by
    rw [skipBlanks_append hblanks]
    rcases hclose with rfl | rfl
    · exact skipBlanks_cons (by decide)
    · exact skipBlanks_cons (by decide)
  rw [readList?, hskip]
  exact if_pos rfl

/-! ## Values -/

/-- With a reader of values that are not longer, a text with blanks around it is read. -/
theorem IsText.readsPadded {readValue? : List Char → Option (Json × List Char)}
    (h : IsText json text)
    (hread : ∀ core, IsValue json core → core.length ≤ text.length → Reads readValue? core json) :
    ReadsPadded (readPadded? readValue?) text json := by
  obtain ⟨hvalue, hcore⟩ := h
  obtain ⟨c, more, rfl, hc, -⟩ := hvalue.exists_eq_cons
  refine readsPadded_of_isPadded hcore hc (hread _ hvalue ?_)
  obtain ⟨before, after, -, -, rfl⟩ := hcore
  simp only [List.length_append]
  omega

/-- With a reader of values that are not longer, a field is read. -/
theorem IsField.readsPadded {readValue? : List Char → Option (Json × List Char)}
    {field : String × Json} (h : IsField field text)
    (hread : ∀ core, IsValue field.2 core → core.length ≤ text.length →
      Reads readValue? core field.2) :
    ReadsPadded (readField? readValue?) text field := by
  obtain @⟨name, value, quoted, label, text, hname, hlabel, hvalue⟩ := h
  intro rest hrest
  have hlabelled : readPadded? readQuoted? (label ++ ':' :: (text ++ rest)) =
      some (name, ':' :: (text ++ rest)) := by
    obtain ⟨content, -, rfl⟩ := id hname
    have hread := readsPadded_of_isPadded hlabel (by decide) fun rest _ ↦ readQuoted?_append hname
    exact hread.append_cons (by decide) (by decide)
  have hread : readPadded? readValue? (text ++ rest) = some (value, skipBlanks rest) := by
    refine hvalue.readsPadded (fun core hcore hlength ↦ hread core hcore ?_) rest hrest
    rw [List.length_append, List.length_cons]
    omega
  rw [List.append_assoc, List.cons_append, readField?, hlabelled]
  simp only [Option.bind_eq_bind, Option.bind_some, hread]
  rfl

/-- No item starts with the bracket that closes an array. -/
theorem IsText.exists_skipBlanks (h : IsText json text) (rest : List Char) :
    ∃ c more, c ≠ ']' ∧ skipBlanks (text ++ rest) = c :: more := by
  obtain ⟨hvalue, hcore⟩ := h
  obtain ⟨c, more, rfl, hc, hne, -⟩ := hvalue.exists_eq_cons
  obtain ⟨after, -, hskip⟩ := hcore.exists_skipBlanks hc rest
  exact ⟨c, _, hne, hskip⟩

/-- No field starts with the brace that closes an object. -/
theorem IsField.exists_skipBlanks {field : String × Json} (h : IsField field text)
    (rest : List Char) : ∃ c more, c ≠ '\x7d' ∧ skipBlanks (text ++ rest) = c :: more := by
  obtain ⟨⟨content, -, rfl⟩, hlabel, -⟩ := h
  rw [List.append_assoc]
  obtain ⟨after, -, hskip⟩ := hlabel.exists_skipBlanks (by decide) _
  exact ⟨_, _, by decide, hskip⟩

/-- A numeral is neither a word nor anything in quotes or brackets. -/
theorem readValue?_numeral {bound : Nat} {value : Number} {numeral : Numeral}
    (h : numeral.IsText text) (hvalue : Number.ofNumeral? numeral = some value)
    (hrest : Numeral.Ends rest) :
    readValue? (bound + 1) (text ++ rest) = some (number value, rest) := by
  have hnumber : readNumber? (text ++ rest) = some (number value, rest) := by
    simp only [readNumber?, h.scan?_append hrest, Option.bind_eq_bind, Option.bind_some, hvalue]
    rfl
  obtain ⟨c, more, rfl, hc⟩ := h.exists_eq_cons
  rw [List.cons_append] at hnumber ⊢
  rw [readValue?, hnumber]
  all_goals
    rintro _ ⟨⟩
    exact absurd hc (by decide)

/-- A text of a value is read as that value. The induction is on the bound, which is above the
lengths of all parts. -/
theorem readValue?_append {bound : Nat} (h : IsValue json text) (hbound : text.length < bound)
    (hrest : Numeral.Ends rest) : readValue? bound (text ++ rest) = some (json, rest) := by
  induction bound generalizing json text rest with
  | zero => exact absurd hbound (Nat.not_lt_zero _)
  | succ bound ih =>
    have hinner (first last : Char) {parts : List (List Char)} {part core : List Char}
        (hbound : (first :: (Text.join ',' parts ++ [last])).length < bound + 1)
        (hpart : part ∈ parts) (hcore : core.length ≤ part.length) : core.length < bound := by
      have hle := length_le_length_join hpart
      simp only [List.length_cons, List.length_append] at hbound
      omega
    cases h with
    | null => rfl
    | isTrue => rfl
    | isFalse => rfl
    | number h hvalue => exact readValue?_numeral h hvalue hrest
    | string h =>
      have hquoted : readQuoted? (text ++ rest) = _ := readQuoted?_append h
      obtain ⟨content, -, rfl⟩ := h
      rw [List.cons_append] at hquoted ⊢
      rw [readValue?, hquoted]
      rfl
    | emptyArray hblanks =>
      rw [List.cons_append, List.append_assoc, List.singleton_append, readValue?,
        readList?_blanks hblanks (.inl rfl)]
      rfl
    | @array items parts hne h =>
      have hitems : readList? (readPadded? (readValue? bound)) ']'
          (Text.join ',' parts ++ ']' :: rest) = some (items, rest) := by
        apply readList?_append (.inl rfl) hne h fun _ _ rest hitem ↦ hitem.exists_skipBlanks rest
        intro part hpart item hitem
        exact hitem.readsPadded fun core hcore hle _ hrest ↦
          ih hcore (hinner _ _ hbound hpart hle) hrest
      rw [List.cons_append, List.append_assoc, List.singleton_append, readValue?, hitems]
      rfl
    | emptyObject hblanks =>
      rw [List.cons_append, List.append_assoc, List.singleton_append, readValue?,
        readList?_blanks hblanks (.inr rfl)]
      rfl
    | @object fields parts hne h =>
      have hfields : readList? (readField? (readValue? bound)) '\x7d'
          (Text.join ',' parts ++ '\x7d' :: rest) = some (fields, rest) := by
        apply readList?_append (.inr rfl) hne h fun _ _ rest hfield ↦ hfield.exists_skipBlanks rest
        intro part hpart field hfield
        exact hfield.readsPadded fun core hcore hle _ hrest ↦
          ih hcore (hinner _ _ hbound hpart hle) hrest
      rw [List.cons_append, List.append_assoc, List.singleton_append, readValue?, hfields]
      rfl

/-- A text is read as the value that it is a text of. -/
theorem ofText?_of_isText {text : String} (h : IsText json text.toList) :
    ofText? text = some json := by
  have hread : readPadded? (readValue? (text.toList.length + 1)) (text.toList ++ []) =
      some (json, []) := by
    apply h.readsPadded _ [] Numeral.ends_nil
    intro core hcore hle rest hrest
    exact readValue?_append hcore (Nat.lt_succ_of_le hle) hrest
  rw [List.append_nil] at hread
  rw [ofText?, hread]

end IndexedSearch.Json
