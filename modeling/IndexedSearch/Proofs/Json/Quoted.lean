import IndexedSearch.Json.Printer

/-!
# Quoted strings

The grammar of a quoted string: a character stands for itself, or is escaped by a letter, by its
code point as four hexadecimal digits, or by two such code units beyond the first plane. Reading
undoes every way of writing a string, the way of the printer among them.
-/

namespace IndexedSearch.Json

/-! ## The grammar -/

/-- The character that a letter behind a backslash stands for. -/
def escaped? : Char → Option Char
  | '"' => some '"'
  | '\\' => some '\\'
  | '/' => some '/'
  | 'b' => some '\x08'
  | 'f' => some '\x0c'
  | 'n' => some '\n'
  | 'r' => some '\r'
  | 't' => some '\t'
  | _ => none

/-- The value of a hexadecimal digit, in either case. -/
def hexDigit? (c : Char) : Option Nat :=
  if c.isDigit then some (c.toNat - '0'.toNat)
  else if 'a' ≤ c ∧ c ≤ 'f' then some (c.toNat - 'a'.toNat + 10)
  else if 'A' ≤ c ∧ c ≤ 'F' then some (c.toNat - 'A'.toNat + 10)
  else none

/-- The code unit of four hexadecimal digits. -/
def codeUnit? (a b c d : Char) : Option Nat := do
  return (((← hexDigit? a) * 16 + (← hexDigit? b)) * 16 + (← hexDigit? c)) * 16 + (← hexDigit? d)

/-- The first code unit of a pair. -/
def highStart : Nat := 0xD800

/-- The second code unit of a pair. -/
def lowStart : Nat := 0xDC00

/-- The ways to write a character in a quoted string. -/
inductive IsCharText : Char → List Char → Prop
  | plain {c : Char} (hcontrol : 32 ≤ c.toNat) (hquote : c ≠ '"') (hescape : c ≠ '\\') :
    IsCharText c [c]
  | letter {c letter : Char} (h : escaped? letter = some c) : IsCharText c ['\\', letter]
  | unit {c d₁ d₂ d₃ d₄ : Char} (h : codeUnit? d₁ d₂ d₃ d₄ = some c.toNat) :
    IsCharText c ['\\', 'u', d₁, d₂, d₃, d₄]
  | pair {c d₁ d₂ d₃ d₄ e₁ e₂ e₃ e₄ : Char} {high low : Nat} (hhigh : high < 0x400)
    (hlow : low < 0x400) (hc : c.toNat = 0x10000 + high * 0x400 + low)
    (hfirst : codeUnit? d₁ d₂ d₃ d₄ = some (highStart + high))
    (hsecond : codeUnit? e₁ e₂ e₃ e₄ = some (lowStart + low)) :
    IsCharText c ['\\', 'u', d₁, d₂, d₃, d₄, '\\', 'u', e₁, e₂, e₃, e₄]

/-- The ways to write a text in a quoted string. -/
inductive IsContent : List Char → List Char → Prop
  | nil : IsContent [] []
  | cons {c : Char} {part rest written : List Char} (h : IsCharText c part)
    (hrest : IsContent rest written) : IsContent (c :: rest) (part ++ written)

/-- The ways to write a string, the quotes included. -/
def IsQuoted (text : String) (written : List Char) : Prop :=
  ∃ content, IsContent text.toList content ∧ written = '"' :: (content ++ ['"'])

/-! ## What is printed -/

variable {c : Char} {text written part rest : List Char}

theorem hexDigit?_digitChar {digit : Nat} (h : digit < 16) :
    hexDigit? (Nat.digitChar digit) = some digit := by
  have hall : ∀ digit < 16, hexDigit? (Nat.digitChar digit) = some digit := by decide
  exact hall digit h

/-- A control character is escaped by its code point. -/
theorem codeUnit?_control (h : c.toNat < 32) :
    codeUnit? '0' '0' (Nat.digitChar (c.toNat / 16)) (Nat.digitChar (c.toNat % 16)) =
      some c.toNat := by
  have hzero : hexDigit? '0' = some 0 := by decide
  have hvalue : ((0 * 16 + 0) * 16 + c.toNat / 16) * 16 + c.toNat % 16 = c.toNat := by omega
  simp only [codeUnit?, hzero, hexDigit?_digitChar (show c.toNat / 16 < 16 by omega),
    hexDigit?_digitChar (show c.toNat % 16 < 16 by omega), Option.bind_eq_bind, Option.bind_some,
    Option.pure_def, hvalue]

theorem isCharText_escapeChar (c : Char) : IsCharText c (escapeChar c) := by
  rw [escapeChar]
  by_cases hquote : c = '"'
  · rw [if_pos hquote, hquote]
    exact .letter rfl
  by_cases hescape : c = '\\'
  · rw [if_neg hquote, if_pos hescape, hescape]
    exact .letter rfl
  rw [if_neg hquote, if_neg hescape]
  -- Five control characters have letters of their own.
  iterate 5
    split
    · rename_i hc
      rw [hc]
      exact .letter rfl
  split
  · rename_i hcontrol
    exact .unit (codeUnit?_control hcontrol)
  · rename_i hcontrol
    exact .plain (Nat.not_lt.1 hcontrol) hquote hescape

theorem isContent_flatMap_escapeChar (text : List Char) :
    IsContent text (text.flatMap escapeChar) := by
  induction text with
  | nil => exact .nil
  | cons c rest ih => exact .cons (isCharText_escapeChar c) ih

/-- Printing a string is one of the ways to write it. -/
theorem isQuoted_quote (text : String) : IsQuoted text (quote text) :=
  ⟨_, isContent_flatMap_escapeChar text.toList, rfl⟩

/-! ## Reading -/

/-- Four hexadecimal digits in front. -/
def readUnit? : List Char → Option (Nat × List Char)
  | d₁ :: d₂ :: d₃ :: d₄ :: rest => (codeUnit? d₁ d₂ d₃ d₄).map fun unit ↦ (unit, rest)
  | _ => none

/-- The second of two code units, behind its escape. -/
def readLow? : List Char → Option (Nat × List Char)
  | '\\' :: 'u' :: text => readUnit? text
  | _ => none

/-- A character from its first code unit, with a second one where it takes two. Half of a pair is
no character. -/
def readPoint? (unit : Nat) (text : List Char) : Option (Char × List Char) :=
  if highStart ≤ unit ∧ unit < lowStart then do
    let (low, rest) ← readLow? text
    if lowStart ≤ low ∧ low < lowStart + 0x400 then
      return (Char.ofNat (0x10000 + (unit - highStart) * 0x400 + (low - lowStart)), rest)
    else none
  else if unit.isValidChar then some (Char.ofNat unit, text)
  else none

/-- A character behind a backslash. -/
def readEscape? : List Char → Option (Char × List Char)
  | 'u' :: text => do
    let (unit, rest) ← readUnit? text
    readPoint? unit rest
  | letter :: rest => (escaped? letter).map fun c ↦ (c, rest)
  | [] => none

/-- A character of a quoted string, which may be escaped. -/
def readChar? : List Char → Option (Char × List Char)
  | '\\' :: rest => readEscape? rest
  | c :: rest => if c.toNat < 32 then none else some (c, rest)
  | [] => none

/-- A text up to the closing quote, of at most so many characters. -/
def readContent? (bound : Nat) (text : List Char) : Option (List Char × List Char) :=
  match bound, text with
  | _, '"' :: rest => some ([], rest)
  | 0, _ => none
  | bound + 1, text => do
    let (c, rest) ← readChar? text
    let (content, rest) ← readContent? bound rest
    return (c :: content, rest)

/-- A string, its opening quote included. -/
def readQuoted? : List Char → Option (String × List Char)
  | '"' :: rest => (readContent? rest.length rest).map fun (content, rest) ↦
      (String.ofList content, rest)
  | _ => none

theorem readUnit?_append {d₁ d₂ d₃ d₄ : Char} {unit : Nat}
    (h : codeUnit? d₁ d₂ d₃ d₄ = some unit) :
    readUnit? (d₁ :: d₂ :: d₃ :: d₄ :: rest) = some (unit, rest) := by
  rw [readUnit?, h, Option.map_some]

/-- No character is half of a pair. -/
theorem readPoint?_toNat (c : Char) : readPoint? c.toNat rest = some (c, rest) := by
  have hvalid : c.toNat.isValidChar := c.valid
  have hsingle : ¬ (highStart ≤ c.toNat ∧ c.toNat < lowStart) := by
    rw [highStart, lowStart]
    rw [Nat.isValidChar] at hvalid
    omega
  rw [readPoint?, if_neg hsingle, if_pos hvalid, Char.ofNat_toNat]

theorem readPoint?_pair {high low : Nat} {e₁ e₂ e₃ e₄ : Char} (hhigh : high < 0x400)
    (hlow : low < 0x400) (hc : c.toNat = 0x10000 + high * 0x400 + low)
    (hsecond : codeUnit? e₁ e₂ e₃ e₄ = some (lowStart + low)) :
    readPoint? (highStart + high) ('\\' :: 'u' :: e₁ :: e₂ :: e₃ :: e₄ :: rest) =
      some (c, rest) := by
  have hpair : highStart ≤ highStart + high ∧ highStart + high < lowStart := by
    rw [highStart, lowStart]
    omega
  have hrange : lowStart ≤ lowStart + low ∧ lowStart + low < lowStart + 0x400 := by omega
  rw [readPoint?, if_pos hpair, readLow?, readUnit?_append hsecond]
  simp only [Option.bind_eq_bind, Option.bind_some, if_pos hrange, Nat.add_sub_cancel_left, ← hc,
    Char.ofNat_toNat]
  rfl

theorem readChar?_append (h : IsCharText c part) : readChar? (part ++ rest) = some (c, rest) := by
  cases h with
  | plain hcontrol hquote hescape =>
    rw [List.singleton_append, readChar?, if_neg (Nat.not_lt.2 hcontrol)]
    exact hescape
  | letter h =>
    rw [List.cons_append, List.singleton_append, readChar?, readEscape?, h, Option.map_some]
    rintro rfl
    cases h
  | unit h =>
    simp only [List.cons_append, List.nil_append, readChar?, readEscape?, readUnit?_append h]
    exact readPoint?_toNat c
  | pair hhigh hlow hc hfirst hsecond =>
    simp only [List.cons_append, List.nil_append, readChar?, readEscape?, readUnit?_append hfirst]
    exact readPoint?_pair hhigh hlow hc hsecond

theorem IsCharText.head?_ne (h : IsCharText c part) : part.head? ≠ some '"' := by
  cases h with
  | plain _ hquote => exact fun hhead ↦ hquote (Option.some.inj hhead)
  | _ => exact nofun

theorem IsCharText.length_pos (h : IsCharText c part) : 0 < part.length := by
  cases h <;> exact Nat.succ_pos _

theorem readContent?_append {bound : Nat} (h : IsContent text written)
    (hbound : written.length ≤ bound) :
    readContent? bound (written ++ '"' :: rest) = some (text, rest) := by
  induction h generalizing bound with
  | nil => rw [List.nil_append, readContent?]
  | @cons c part text written hpart _ ih =>
    rw [List.length_append] at hbound
    have hpos := hpart.length_pos
    obtain ⟨bound, rfl⟩ : ∃ inner, bound = inner + 1 := ⟨bound - 1, by omega⟩
    have hread : readChar? (part ++ (written ++ '"' :: rest)) = some (c, written ++ '"' :: rest) :=
      readChar?_append hpart
    rw [List.append_assoc, readContent?]
    · rw [hread]
      simp only [Option.bind_eq_bind, Option.bind_some, ih (show written.length ≤ bound by omega)]
      rfl
    · intro others hquote
      -- The closing quote would be part of the character.
      obtain ⟨first, more, rfl⟩ := List.exists_cons_of_length_pos hpos
      exact hpart.head?_ne (congrArg some (List.cons.inj hquote).1)

/-- Reading undoes every way of writing a string. -/
theorem readQuoted?_append {text : String} (h : IsQuoted text written) :
    readQuoted? (written ++ rest) = some (text, rest) := by
  obtain ⟨content, hcontent, rfl⟩ := h
  have hbound : content.length ≤ (content ++ '"' :: rest).length := by
    rw [List.length_append]
    exact Nat.le_add_right _ _
  rw [List.cons_append, List.append_assoc, List.singleton_append, readQuoted?,
    readContent?_append hcontent hbound]
  exact congrArg (fun text ↦ some (text, rest)) (String.ofList_toList)

end IndexedSearch.Json
