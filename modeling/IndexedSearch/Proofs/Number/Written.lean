import IndexedSearch.Number.Basic
import IndexedSearch.Proofs.Number.Nearest
import IndexedSearch.Proofs.Number.Scanning

/-!
# Numbers as they are written

Every number is written as a numeral, which tells what number it was: an integer by its digits, and
a real by a decimal to which no other real is the nearest. So no two numbers are written the same,
and integers are read as they were written.
-/

namespace IndexedSearch

namespace Numeral

variable {numeral : Numeral}

/-- The signed text is one of the numeral, which is no integer one and has the decimal as its
magnitude. -/
structure Spells (numeral : Numeral) (sign : Bool) (decimal : Decimal) (unsigned : List Char) :
    Prop where
  isText : numeral.IsText ((if sign then ['-'] else []) ++ unsigned)
  isWhole : numeral.isWhole = false
  negative : numeral.negative = sign
  magnitude : numeral.magnitude = decimal

/-- An exponent as it is written, with its sign. -/
theorem isPower_natAbs (power : Int) :
    IsPower power ((if power < 0 then '-' else '+') :: Nat.toDigits 10 power.natAbs) := by
  have hdigits := isDigits_toDigits power.natAbs
  have hvalue : Nat.ofDigitChars 10 (Nat.toDigits 10 power.natAbs) 0 = power.natAbs :=
    Nat.ofDigitChars_ten_toDigits
  by_cases hsign : power < 0
  · have hpower := IsPower.negative hdigits
    rw [hvalue, Int.ofNat_natAbs_of_nonpos (Int.le_of_lt hsign), Int.neg_neg] at hpower
    rwa [if_pos hsign]
  · have hpower := IsPower.positive hdigits
    rw [hvalue, Int.natAbs_of_nonneg (Int.not_lt.1 hsign)] at hpower
    rwa [if_neg hsign]

/-- The digits of a decimal are those of the numeral, up to zeros behind them. -/
theorem magnitude_eq {decimal : Decimal} (zeros : Nat)
    (hdigits : Nat.ofDigitChars 10 (numeral.whole ++ numeral.fraction.getD []) 0 =
      decimal.significand * 10 ^ zeros)
    (hexponent : numeral.exponent.getD 0 - (numeral.fraction.getD []).length =
      decimal.exponent - zeros) : numeral.magnitude = decimal := by
  rw [magnitude, hdigits, hexponent]
  exact decimal.ofScaled_mul_pow zeros

end Numeral

/-! ## Decimals -/

/-- Only zero starts with a zero. -/
theorem head?_toDigits_ne_zero {n : Nat} (h : n ≠ 0) : (Nat.toDigits 10 n).head? ≠ some '0' := by
  have hdigit : ∀ digit < 10, digit ≠ 0 → Nat.digitChar digit ≠ '0' := by decide
  induction n using Nat.strongRecOn with
  | _ n ih =>
    rw [Nat.toDigits_eq_if (by decide)]
    split
    · rename_i hlt
      exact fun hzero ↦ hdigit n hlt h (Option.some.inj hzero)
    · have hhead := ih (n / 10) (by omega) (by omega)
      rw [List.head?_append, List.head?_eq_some_head Nat.toDigits_ne_nil, Option.some_or]
      rwa [List.head?_eq_some_head Nat.toDigits_ne_nil] at hhead

namespace Decimal

variable {decimal : Decimal} {part : List Char}

theorem digits_ne_nil (decimal : Decimal) : decimal.digits ≠ [] := Nat.toDigits_ne_nil

theorem ofDigitChars_digits (decimal : Decimal) :
    Nat.ofDigitChars 10 decimal.digits 0 = decimal.significand :=
  Nat.ofDigitChars_ten_toDigits

/-- Zeros and digits of a decimal are digits. -/
theorem isDigits_of_mem (decimal : Decimal) (hne : part ≠ [])
    (h : ∀ c ∈ part, c ∈ decimal.digits ∨ c = '0') : Numeral.IsDigits part := by
  refine ⟨hne, fun c hc ↦ ?_⟩
  rcases h c hc with hmem | rfl
  · exact (Numeral.isDigits_toDigits decimal.significand).2 c hmem
  · decide

/-- What starts like the digits of a positive decimal has no leading zero. -/
theorem eq_nil_of_head? (h : decimal.significand ≠ 0) (hhead : part.head? = decimal.digits.head?)
    (more : List Char) (hzero : part = '0' :: more) : more = [] := by
  rw [hzero] at hhead
  exact absurd hhead.symm (head?_toDigits_ne_zero h)

theorem isDigits_zero : Numeral.IsDigits ['0'] := Numeral.isDigits_toDigits 0

/-- A single zero may lead. -/
theorem eq_nil_of_zero (more : List Char) (hzero : ['0'] = '0' :: more) : more = [] :=
  (List.cons.inj hzero).2.symm

variable (negative : Bool)

/-- Digits on both sides of a point. -/
theorem spells_point {whole fraction : List Char} (zeros : Nat)
    (hwhole : Numeral.IsDigits whole) (hleading : ∀ more, whole = '0' :: more → more = [])
    (hfraction : Numeral.IsDigits fraction)
    (hdigits : Nat.ofDigitChars 10 (whole ++ fraction) 0 = decimal.significand * 10 ^ zeros)
    (hexponent : decimal.exponent + fraction.length = zeros) :
    Numeral.Spells ⟨negative, whole, some fraction, none⟩ negative decimal
      (whole ++ '.' :: fraction) := by
  refine ⟨⟨hwhole, hleading, ?_, [], .absent, ?_⟩, rfl, rfl, Numeral.magnitude_eq zeros hdigits ?_⟩
  · rintro digits ⟨⟩
    exact hfraction
  · rw [List.append_nil]
    rfl
  · rw [Option.getD_none, Option.getD_some]
    omega

/-- Zeros behind the digits, and a fraction that is zero. -/
theorem spells_whole (h : decimal.significand ≠ 0) {zeros : Nat}
    (hexponent : decimal.exponent = zeros) :
    Numeral.Spells ⟨negative, decimal.digits ++ List.replicate zeros '0', some ['0'], none⟩
      negative decimal (decimal.digits ++ List.replicate zeros '0' ++ ['.', '0']) := by
  apply spells_point negative (zeros + 1)
  · apply decimal.isDigits_of_mem (by simp [decimal.digits_ne_nil])
    simp +contextual [List.mem_replicate, or_imp]
  · apply eq_nil_of_head? h
    rw [List.head?_append, List.head?_eq_some_head decimal.digits_ne_nil, Option.some_or]
  · exact isDigits_zero
  · rw [List.append_assoc, ← List.replicate_succ', Nat.ofDigitChars_append,
      Nat.ofDigitChars_replicate_zero, ofDigitChars_digits, Nat.mul_comm]
  · simp [hexponent]

/-- A point among the digits. -/
theorem spells_split (h : decimal.significand ≠ 0) {place : Nat}
    (hplace : decimal.leadingPlace = place) (hexponent : decimal.exponent < 0) :
    Numeral.Spells
      ⟨negative, decimal.digits.take (place + 1), some (decimal.digits.drop (place + 1)), none⟩
      negative decimal
      (decimal.digits.take (place + 1) ++ '.' :: decimal.digits.drop (place + 1)) := by
  rw [leadingPlace] at hplace
  have hlength : place + 1 < decimal.digits.length := by omega
  apply spells_point negative 0
  · apply decimal.isDigits_of_mem (by simp [decimal.digits_ne_nil])
    exact fun c hc ↦ .inl (List.mem_of_mem_take hc)
  · apply eq_nil_of_head? h
    rw [List.head?_take, if_neg (Nat.succ_ne_zero place)]
  · apply decimal.isDigits_of_mem (by simpa using hlength)
    exact fun c hc ↦ .inl (List.mem_of_mem_drop hc)
  · rw [List.take_append_drop, ofDigitChars_digits, Nat.pow_zero, Nat.mul_one]
  · rw [List.length_drop]
    omega

/-- Zeros between the point and the digits. -/
theorem spells_fraction {zeros : Nat} (hplace : decimal.leadingPlace = -(zeros + 1 : Int)) :
    Numeral.Spells ⟨negative, ['0'], some (List.replicate zeros '0' ++ decimal.digits), none⟩
      negative decimal ('0' :: '.' :: List.replicate zeros '0' ++ decimal.digits) := by
  rw [leadingPlace] at hplace
  have hfraction : Numeral.IsDigits (List.replicate zeros '0' ++ decimal.digits) := by
    apply decimal.isDigits_of_mem (by simp [decimal.digits_ne_nil])
    simp +contextual [List.mem_replicate, or_imp]
  have hdigits : Nat.ofDigitChars 10 (['0'] ++ (List.replicate zeros '0' ++ decimal.digits)) 0 =
      decimal.significand * 10 ^ 0 := by
    rw [← List.append_assoc, Nat.ofDigitChars_append, List.singleton_append,
      ← List.replicate_succ, Nat.ofDigitChars_replicate_zero, Nat.mul_zero, ofDigitChars_digits,
      Nat.pow_zero, Nat.mul_one]
  have hlength :
      decimal.exponent + (List.replicate zeros '0' ++ decimal.digits).length = (0 : Nat) := by
    rw [List.length_append, List.length_replicate]
    omega
  exact spells_point negative 0 isDigits_zero eq_nil_of_zero hfraction hdigits hlength

/-- A decimal that is written out in full. -/
theorem exists_spells_positional (h : decimal.significand ≠ 0) :
    ∃ numeral : Numeral, numeral.Spells negative decimal (Number.positional decimal) := by
  rw [Number.positional]
  split
  · rename_i zeros hexponent
    exact ⟨_, spells_whole negative h hexponent⟩
  · rename_i below hexponent
    have hlt : decimal.exponent < 0 := hexponent ▸ Int.negSucc_lt_zero below
    split
    · rename_i place hplace
      exact ⟨_, spells_split negative h hplace hlt⟩
    · rename_i zeros hplace
      exact ⟨_, spells_fraction negative hplace⟩

/-- One digit, the others behind the point, and an exponent. -/
theorem exists_spells_scientific (h : decimal.significand ≠ 0) :
    ∃ numeral : Numeral, numeral.Spells negative decimal (Number.scientific decimal) := by
  have hlength : 0 < decimal.digits.length := List.length_pos_iff.2 decimal.digits_ne_nil
  have hwhole : Numeral.IsDigits (decimal.digits.take 1) :=
    decimal.isDigits_of_mem (by simp [decimal.digits_ne_nil])
      fun c hc ↦ .inl (List.mem_of_mem_take hc)
  have hexponent := Numeral.IsExponent.lower (Numeral.isPower_natAbs decimal.leadingPlace)
  rw [Number.scientific]
  generalize hrest : decimal.digits.drop 1 = rest
  -- A fraction without digits is left out.
  have hfraction : (if rest.isEmpty then none else some rest).getD [] = rest := by
    cases rest <;> rfl
  have hdigits : decimal.digits.take 1 ++ rest = decimal.digits := by
    rw [← hrest, List.take_append_drop]
  have hrestLength : rest.length = decimal.digits.length - 1 := by
    rw [← hrest, List.length_drop]
  refine ⟨⟨negative, decimal.digits.take 1, if rest.isEmpty then none else some rest, _⟩,
    ⟨hwhole, eq_nil_of_head? h ?_, ?_, _, hexponent, ?_⟩, Bool.and_false _, rfl,
    Numeral.magnitude_eq 0 ?_ ?_⟩
  · rw [List.head?_take, if_neg Nat.one_ne_zero]
  · rintro digits hsome
    cases rest with
    | nil => cases hsome
    | cons c rest =>
      cases hsome
      apply decimal.isDigits_of_mem (List.cons_ne_nil _ _)
      exact fun c hc ↦ .inl (hdigits ▸ List.mem_append_right _ hc)
  · cases rest <;> simp [Numeral.fractionChars]
  · rw [hfraction, hdigits, ofDigitChars_digits, Nat.pow_zero, Nat.mul_one]
  · rw [hfraction, Option.getD_some, leadingPlace]
    omega

/-- Every decimal is written as a numeral of it. -/
theorem exists_spells (decimal : Decimal) :
    ∃ numeral : Numeral, numeral.Spells negative decimal (Number.decimalChars decimal) := by
  rw [Number.decimalChars]
  split
  · rename_i hzero
    have hexponent : decimal.exponent = 0 := (decimal.canonical.resolve_left (by simp [hzero])).2
    refine ⟨_, spells_point negative 1 isDigits_zero eq_nil_of_zero isDigits_zero ?_ ?_⟩
    · rw [hzero]
      rfl
    · rw [hexponent]
      rfl
  · rename_i hne
    split
    · exact exists_spells_positional negative hne
    · exact exists_spells_scientific negative hne

end Decimal

namespace Number

variable {numeral : Numeral} {number : Number}

/-- The number that a numeral is written for: an integer keeps its kind, and of the reals it is the
nearest one. -/
def writtenAs? (numeral : Numeral) : Option Number :=
  if numeral.isWhole then ofNumeral? numeral else nearestOfNumeral? numeral

theorem writtenAs?_natural {value : Nat} (fits : value < Nat.pow 2 64) :
    writtenAs? ⟨false, Nat.toDigits 10 value, none, none⟩ = some (natural value fits) := by
  have hvalue : Numeral.wholeValue ⟨false, Nat.toDigits 10 value, none, none⟩ = value :=
    Nat.ofDigitChars_ten_toDigits
  simp only [writtenAs?, ofNumeral?, hvalue, dif_pos fits]
  rfl

theorem writtenAs?_negative {magnitude : Nat} (fits : 0 < magnitude ∧ magnitude ≤ Nat.pow 2 63) :
    writtenAs? ⟨true, Nat.toDigits 10 magnitude, none, none⟩ = some (negative magnitude fits) := by
  have hvalue : Numeral.wholeValue ⟨true, Nat.toDigits 10 magnitude, none, none⟩ = magnitude :=
    Nat.ofDigitChars_ten_toDigits
  simp only [writtenAs?, ofNumeral?, hvalue, dif_pos fits]
  rfl

theorem writtenAs?_real {value : Binary64} {unsigned : List Char}
    (h : numeral.Spells value.negative value.shortest unsigned) :
    writtenAs? numeral = some (real value) := by
  rw [writtenAs?, h.isWhole, if_neg Bool.false_ne_true, nearestOfNumeral?, h.negative, h.magnitude,
    value.ofDecimal?_shortest]
  rfl

theorem isWhole_toDigits (n : Nat) : Numeral.IsWhole (Nat.toDigits 10 n) := by
  refine ⟨Numeral.isDigits_toDigits n, fun more hzero ↦ ?_⟩
  rcases Nat.eq_zero_or_pos n with rfl | hpos
  · cases hzero
    rfl
  · exact absurd (congrArg List.head? hzero) (head?_toDigits_ne_zero hpos.ne')

/-- Every number is written as a numeral of it. -/
theorem exists_isText_chars (number : Number) :
    ∃ numeral : Numeral, numeral.IsText number.chars ∧ writtenAs? numeral = some number := by
  cases number with
  | natural value fits => exact ⟨_, (isWhole_toDigits value).isText false, writtenAs?_natural fits⟩
  | negative magnitude fits =>
    exact ⟨_, (isWhole_toDigits magnitude).isText true, writtenAs?_negative fits⟩
  | real value =>
    obtain ⟨numeral, hspells⟩ := value.shortest.exists_spells value.negative
    exact ⟨numeral, hspells.isText, writtenAs?_real hspells⟩

/-! ## Reading -/

/-- An integer is read from what it is written as. -/
theorem ofNumeral?_of_writtenAs? (h : writtenAs? numeral = some number)
    (hreal : ∀ x, number ≠ real x) : ofNumeral? numeral = some number := by
  rw [writtenAs?] at h
  split at h
  · exact h
  · obtain ⟨x, _, rfl⟩ := Option.map_eq_some_iff.1 h
    exact absurd rfl (hreal x)

/-- From its text, the number can be told. -/
theorem writtenAs?_text (number : Number) :
    (Numeral.ofChars? number.text.toList).bind writtenAs? = some number := by
  obtain ⟨numeral, htext, hwritten⟩ := number.exists_isText_chars
  rw [text, String.toList_ofList, htext.ofChars?_eq]
  exact hwritten

/-- No two numbers are written the same. -/
theorem text_injective : Function.Injective text := by
  intro number other htext
  apply Option.some.inj
  rw [← number.writtenAs?_text, htext, other.writtenAs?_text]

/-- Integers are read back, with their kind. -/
theorem ofText?_text (hreal : ∀ x, number ≠ real x) : ofText? number.text = some number := by
  obtain ⟨numeral, hscanned, hwritten⟩ := Option.bind_eq_some_iff.1 number.writtenAs?_text
  rw [ofText?, hscanned]
  exact ofNumeral?_of_writtenAs? hwritten hreal

/-- Minus zero is read back, and `94.05967814876679` is not. -/
example : ofText? (real (.zero true)).text = some (real (.zero true)) ∧
    ofText? (real ⟨false, 6618861429083983, 1028, by decide⟩).text ≠
      some (real ⟨false, 6618861429083983, 1028, by decide⟩) := by
  decide +kernel

end Number

end IndexedSearch
