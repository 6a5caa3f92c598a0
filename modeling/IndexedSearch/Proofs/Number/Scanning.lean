import IndexedSearch.Number.Numeral

/-!
# Texts of numerals

The grammar of numerals says which texts a numeral has: its parts are digits, and the exponent may
be written with either letter and with or without a plus sign. Scanning finds a numeral again in
front of any text that does not go on like a numeral.
-/

namespace IndexedSearch.Numeral

/-! ## The grammar -/

/-- A nonempty run of digits. -/
def IsDigits (digits : List Char) : Prop := digits ≠ [] ∧ ∀ c ∈ digits, c.isDigit = true

/-- The digits of a power of ten, behind a sign or none. -/
inductive IsPower : Int → List Char → Prop
  | unsigned {digits : List Char} (h : IsDigits digits) :
    IsPower (Nat.ofDigitChars 10 digits 0) digits
  | positive {digits : List Char} (h : IsDigits digits) :
    IsPower (Nat.ofDigitChars 10 digits 0) ('+' :: digits)
  | negative {digits : List Char} (h : IsDigits digits) :
    IsPower (-Nat.ofDigitChars 10 digits 0) ('-' :: digits)

/-- An exponent behind its letter, or none. -/
inductive IsExponent : Option Int → List Char → Prop
  | absent : IsExponent none []
  | lower {power : Int} {text : List Char} (h : IsPower power text) :
    IsExponent (some power) ('e' :: text)
  | upper {power : Int} {text : List Char} (h : IsPower power text) :
    IsExponent (some power) ('E' :: text)

/-- A fraction behind its point, or none. -/
def fractionChars : Option (List Char) → List Char
  | none => []
  | some digits => '.' :: digits

/-- The parts of the numeral are digits, with a leading zero only where it is all of the whole part,
and the text consists of the parts. -/
structure IsText (numeral : Numeral) (text : List Char) : Prop where
  whole : IsDigits numeral.whole
  leading : ∀ rest, numeral.whole = '0' :: rest → rest = []
  fraction : ∀ digits ∈ numeral.fraction, IsDigits digits
  parts : ∃ exponent, IsExponent numeral.exponent exponent ∧
    text = (if numeral.negative then ['-'] else []) ++ (numeral.whole ++
      (fractionChars numeral.fraction ++ exponent))

/-- Digits that start with a zero only if they are a single one. -/
structure IsWhole (digits : List Char) : Prop where
  run : IsDigits digits
  leading : ∀ rest, digits = '0' :: rest → rest = []

/-- No digit stands in front. -/
def EndsDigits (text : List Char) : Prop := ∀ c ∈ text.head?, c.isDigit = false

/-- What stands in front does not belong to a numeral. -/
def Ends (text : List Char) : Prop :=
  ∀ c ∈ text.head?, c.isDigit = false ∧ c ≠ '.' ∧ c ≠ 'e' ∧ c ≠ 'E'

variable {numeral : Numeral} {digits text rest : List Char}

theorem isDigits_toDigits (n : Nat) : IsDigits (Nat.toDigits 10 n) :=
  ⟨Nat.toDigits_ne_nil, fun _ hc ↦ Nat.isDigit_of_mem_toDigits (by decide) (by decide) hc⟩

/-- Such digits are the text of a numeral, behind a sign or none. -/
theorem IsWhole.isText (h : IsWhole digits) (negative : Bool) :
    IsText ⟨negative, digits, none, none⟩ ((if negative then ['-'] else []) ++ digits) := by
  refine ⟨h.run, h.leading, nofun, [], .absent, ?_⟩
  rw [fractionChars, List.append_nil, List.append_nil]

theorem IsDigits.exists_eq_cons (h : IsDigits digits) :
    ∃ c more, digits = c :: more ∧ c.isDigit = true := by
  obtain ⟨c, more, rfl⟩ := List.exists_cons_of_ne_nil h.1
  exact ⟨c, more, rfl, h.2 c List.mem_cons_self⟩

theorem Ends.endsDigits (h : Ends rest) : EndsDigits rest := fun c hc ↦ (h c hc).1

theorem ends_nil : Ends [] := by rintro c ⟨⟩

/-! ## Scanning -/

theorem scanDigits?_append (h : IsDigits digits) (hrest : EndsDigits rest) :
    scanDigits? (digits ++ rest) = some (digits, rest) := by
  have htake : rest.takeWhile Char.isDigit = [] := by
    cases rest with
    | nil => rfl
    | cons c rest => rw [List.takeWhile_cons_of_neg (by simp [hrest c rfl])]
  have hdrop : rest.dropWhile Char.isDigit = rest := by
    cases rest with
    | nil => rfl
    | cons c rest => rw [List.dropWhile_cons_of_neg (by simp [hrest c rfl])]
  obtain ⟨c, more, rfl, -⟩ := h.exists_eq_cons
  rw [scanDigits?, spanDigits, List.takeWhile_append_of_pos h.2, List.dropWhile_append_of_pos h.2,
    htake, hdrop, List.append_nil]

theorem scanSign_append (negative : Bool) (h : IsDigits digits) :
    scanSign ((if negative then ['-'] else []) ++ (digits ++ rest)) =
      (negative, digits ++ rest) := by
  obtain ⟨c, more, rfl, hc⟩ := h.exists_eq_cons
  cases negative with
  | true => rfl
  | false =>
    have hne : c ≠ '-' := by
      rintro rfl
      exact absurd hc (by decide)
    simp [scanSign, hne]

theorem scanWhole?_append (h : IsDigits digits)
    (hleading : ∀ more, digits = '0' :: more → more = []) (hrest : EndsDigits rest) :
    scanWhole? (digits ++ rest) = some (digits, rest) := by
  rw [scanWhole?, scanDigits?_append h hrest]
  split
  · rename_i hscanned
    cases hscanned
    cases hleading _ rfl
  · rfl

theorem scanFraction?_append {fraction : Option (List Char)}
    (h : ∀ digits ∈ fraction, IsDigits digits) (hrest : EndsDigits rest)
    (hpoint : rest.head? ≠ some '.') :
    scanFraction? (fractionChars fraction ++ rest) = some (fraction, rest) := by
  cases fraction with
  | some digits =>
    rw [fractionChars, List.cons_append, scanFraction?, scanDigits?_append (h _ rfl) hrest]
    rfl
  | none =>
    rw [fractionChars, List.nil_append, scanFraction?]
    rintro rest rfl
    exact hpoint rfl

theorem scanPower?_append {power : Int} (h : IsPower power text) (hrest : EndsDigits rest) :
    scanPower? (text ++ rest) = some (power, rest) := by
  cases h with
  | unsigned h =>
    have hscanned := scanDigits?_append h hrest
    obtain ⟨c, more, rfl, hc⟩ := h.exists_eq_cons
    rw [scanPower?]
    · rw [hscanned]
      rfl
    · rintro _ ⟨⟩
      exact absurd hc (by decide)
    · rintro _ ⟨⟩
      exact absurd hc (by decide)
  | positive h =>
    simp only [scanPower?, List.cons_append, scanDigits?_append h hrest]
    rfl
  | negative h =>
    simp only [scanPower?, List.cons_append, scanDigits?_append h hrest]
    rfl

theorem scanExponent?_append {exponent : Option Int} (h : IsExponent exponent text)
    (hrest : Ends rest) : scanExponent? (text ++ rest) = some (exponent, rest) := by
  cases h with
  | absent =>
    rw [List.nil_append, scanExponent?]
    · rintro rest rfl
      exact (hrest _ rfl).2.2.1 rfl
    · rintro rest rfl
      exact (hrest _ rfl).2.2.2 rfl
  | lower h =>
    rw [List.cons_append, scanExponent?, scanPower?_append h hrest.endsDigits]
    rfl
  | upper h =>
    rw [List.cons_append, scanExponent?, scanPower?_append h hrest.endsDigits]
    rfl

theorem IsExponent.endsDigits_append {exponent : Option Int} (h : IsExponent exponent text)
    (hrest : Ends rest) :
    EndsDigits (text ++ rest) ∧ (text ++ rest).head? ≠ some '.' := by
  cases h with
  | absent => exact ⟨hrest.endsDigits, fun hpoint ↦ (hrest _ hpoint).2.1 rfl⟩
  | lower => exact ⟨by rintro c ⟨⟩; decide, by simp⟩
  | upper => exact ⟨by rintro c ⟨⟩; decide, by simp⟩

/-- A numeral is found in front of everything that does not go on like a numeral. -/
theorem IsText.scan?_append (h : numeral.IsText text) (hrest : Ends rest) :
    scan? (text ++ rest) = some (numeral, rest) := by
  obtain ⟨exponent, hexponent, rfl⟩ := h.parts
  obtain ⟨hends, hpoint⟩ := hexponent.endsDigits_append hrest
  have hfraction : EndsDigits (fractionChars numeral.fraction ++ (exponent ++ rest)) := by
    cases numeral.fraction with
    | none => exact hends
    | some digits => rintro c ⟨⟩; decide
  simp only [List.append_assoc, scan?, scanSign_append _ h.whole,
    scanWhole?_append h.whole h.leading hfraction, scanFraction?_append h.fraction hends hpoint,
    scanExponent?_append hexponent hrest, Option.bind_eq_bind, Option.bind_some]
  rfl

theorem IsText.ofChars?_eq (h : numeral.IsText text) : ofChars? text = some numeral := by
  have hscanned := h.scan?_append ends_nil
  rw [List.append_nil] at hscanned
  rw [ofChars?, hscanned]

/-- A numeral starts with a minus sign or a digit. -/
theorem IsText.exists_eq_cons (h : numeral.IsText text) :
    ∃ c more, text = c :: more ∧ (c = '-' ∨ c.isDigit = true) := by
  obtain ⟨exponent, -, rfl⟩ := h.parts
  obtain ⟨c, more, hwhole, hc⟩ := h.whole.exists_eq_cons
  rw [hwhole]
  cases numeral.negative with
  | true => exact ⟨_, _, rfl, .inl rfl⟩
  | false => exact ⟨_, _, rfl, .inr hc⟩

end IndexedSearch.Numeral
