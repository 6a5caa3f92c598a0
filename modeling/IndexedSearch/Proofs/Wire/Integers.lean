import IndexedSearch.Proofs.Number.Integers
import IndexedSearch.Wire.Value

/-!
# Integers on the wire

The text of an integer of 64 bits, with a sign or without, is decoded to a number of just its value,
also where it is a member of a set. A longer text is decoded to a real number that is close to it,
but need not have its value, and a text of more than 308 digits may be kept as it is.
-/

namespace IndexedSearch

namespace Number

/-- The exact value. -/
def value : Number → ℚ
  | natural value _ => value
  | negative magnitude _ => -magnitude
  | real x => x.value

end Number

namespace Wire.Value

open Numeral (IsInteger IsWhole)

/-- The integer has 64 bits, the sign included if it is negative. -/
def FitsWord (value : Int) : Prop := -2 ^ 63 ≤ value ∧ value < 2 ^ 64

/-- What the text of an integer is decoded to: its value, if that has 64 bits, and otherwise a real
number that is close to it or, for an integer of more than 308 digits, possibly the text. -/
inductive IsIntegerDocument (value : Int) (text : String) : Json → Prop
  | exact {number : Number} (hfits : FitsWord value) (hvalue : number.value = value) :
    IsIntegerDocument value text (.number number)
  | near {x : Binary64} (hlong : ¬ FitsWord value)
    (hnear : |x.value - value| ≤ |(value : ℚ)| / 2 ^ 51) :
    IsIntegerDocument value text (.number (.real x))
  | kept (hlong : 10 ^ 308 ≤ |value|) : IsIntegerDocument value text (.string text)

variable {value : Int} {text : String} {digits : List Char}

theorem numberDocument_of_ofText? {number : Number} (h : Number.ofText? text = some number) :
    numberDocument text = .number number := by
  rw [numberDocument, h]

theorem numberDocument_of_ofText?_eq_none (h : Number.ofText? text = none) :
    numberDocument text = .string text := by
  rw [numberDocument, h]

/-- The integer of a sign and a magnitude. -/
def signed (negative : Bool) (magnitude : Nat) : Int := if negative then -magnitude else magnitude

theorem abs_signed (negative : Bool) (magnitude : Nat) :
    |signed negative magnitude| = magnitude := by
  cases negative <;> simp [signed]

theorem abs_value_sub_signed {x : Binary64} {negative : Bool} (h : x.negative = negative)
    (magnitude : Nat) :
    |x.value - signed negative magnitude| = |x.magnitude - magnitude| := by
  rw [Binary64.value, h, signed]
  cases negative with
  | false => simp
  | true =>
    rw [if_pos rfl, if_pos rfl, ← abs_neg]
    push_cast
    ring_nf

/-- An integer that is read as a real number gets a close one, or none if it has many digits. -/
theorem isIntegerDocument_of_realOfNumeral? {negative : Bool} (h : IsWhole digits)
    (hlong : ¬ FitsWord (signed negative (Nat.ofDigitChars 10 digits 0)))
    (hread : Number.ofText? text = Number.realOfNumeral? ⟨negative, digits, none, none⟩) :
    IsIntegerDocument (signed negative (Nat.ofDigitChars 10 digits 0)) text
      (numberDocument text) := by
  have hlarge : 2 ^ 53 ≤ Nat.ofDigitChars 10 digits 0 := by
    unfold FitsWord signed at hlong
    split at hlong <;> omega
  rw [Number.realOfNumeral?] at hread
  cases hround : (Scaled.ofNumeral ⟨negative, digits, none, none⟩).round? negative with
  | none =>
    rw [hround, Option.map_none] at hread
    rw [numberDocument_of_ofText?_eq_none hread]
    apply IsIntegerDocument.kept
    rw [abs_signed]
    by_contra hlt
    obtain ⟨x, hx⟩ := Scaled.exists_round?_ofNumeral_eq_some negative h.run.2 hlarge (by
      exact_mod_cast not_le.1 hlt)
    cases hround.symm.trans hx
  | some x =>
    rw [hround, Option.map_some] at hread
    rw [numberDocument_of_ofText? hread]
    obtain ⟨hnegative, hnear⟩ := Scaled.abs_magnitude_sub_le h.run.2 hlarge hround
    apply IsIntegerDocument.near hlong
    rw [abs_value_sub_signed hnegative, ← Int.cast_abs, abs_signed, Int.cast_natCast]
    exact hnear

theorem ofText?_of_isWhole {negative : Bool} (h : IsWhole digits)
    (htext : text.toList = (if negative then ['-'] else []) ++ digits) :
    Number.ofText? text = Number.ofNumeral? ⟨negative, digits, none, none⟩ := by
  rw [Number.ofText?, htext, (h.isText negative).ofChars?_eq]
  rfl

theorem isIntegerDocument_of_nonnegative (h : IsWhole digits) (htext : text.toList = digits) :
    IsIntegerDocument (Nat.ofDigitChars 10 digits 0) text (numberDocument text) := by
  have hread : Number.ofText? text = Number.ofNumeral? ⟨false, digits, none, none⟩ :=
    ofText?_of_isWhole h htext
  rw [Number.ofNumeral?_nonnegative] at hread
  by_cases hfits : Nat.ofDigitChars 10 digits 0 < Nat.pow 2 64
  · rw [dif_pos hfits] at hread
    rw [numberDocument_of_ofText? hread]
    refine .exact ⟨by omega, by exact_mod_cast hfits⟩ ?_
    rw [Number.value, Int.cast_natCast]
  · rw [dif_neg hfits] at hread
    have hlong : ¬ FitsWord (signed false (Nat.ofDigitChars 10 digits 0)) := by
      intro hword
      have hupper : (Nat.ofDigitChars 10 digits 0 : Int) < 2 ^ 64 := hword.2
      exact hfits (by exact_mod_cast hupper)
    exact isIntegerDocument_of_realOfNumeral? h hlong hread

theorem isIntegerDocument_of_negative (h : IsWhole digits) (hzero : digits ≠ ['0'])
    (htext : text.toList = '-' :: digits) :
    IsIntegerDocument (-Nat.ofDigitChars 10 digits 0) text (numberDocument text) := by
  have hread : Number.ofText? text = Number.ofNumeral? ⟨true, digits, none, none⟩ :=
    ofText?_of_isWhole h htext
  have hpos : 0 < Nat.ofDigitChars 10 digits 0 := h.ofDigitChars_pos hzero
  rw [Number.ofNumeral?_negative] at hread
  by_cases hfits : Nat.ofDigitChars 10 digits 0 ≤ Nat.pow 2 63
  · rw [dif_pos ⟨hpos, hfits⟩] at hread
    rw [numberDocument_of_ofText? hread]
    have hcast : (Nat.ofDigitChars 10 digits 0 : Int) ≤ 2 ^ 63 := by exact_mod_cast hfits
    refine .exact ⟨by omega, by omega⟩ ?_
    rw [Number.value, Int.cast_neg, Int.cast_natCast]
  · rw [dif_neg fun hboth ↦ hfits hboth.2] at hread
    have hlong : ¬ FitsWord (signed true (Nat.ofDigitChars 10 digits 0)) := by
      intro hword
      have hlower : -2 ^ 63 ≤ -(Nat.ofDigitChars 10 digits 0 : Int) := hword.1
      exact hfits (by exact_mod_cast neg_le_neg_iff.1 hlower)
    exact isIntegerDocument_of_realOfNumeral? h hlong hread

theorem isIntegerDocument_numberDocument (h : IsInteger value text.toList) :
    IsIntegerDocument value text (numberDocument text) := by
  generalize htext : text.toList = chars at h
  cases h with
  | nonnegative hwhole => exact isIntegerDocument_of_nonnegative hwhole htext
  | negative hwhole hzero => exact isIntegerDocument_of_negative hwhole hzero htext

/-- Decoding the text of an integer keeps its value if that has 64 bits, and changes it by at most
one part in `2 ^ 51` otherwise, unless the text is kept. It makes no difference if the text is a
member of a set. -/
theorem isIntegerDocument_toDocument (h : IsInteger value text.toList) :
    IsIntegerDocument value text (toDocument (.number text)) ∧
      ∀ (texts : List String) (i : Nat), texts[i]? = some text →
        ∃ items item, toDocument (.numberSet texts) = .array items ∧
          items[i]? = some item ∧ IsIntegerDocument value text item := by
  have hdocument := isIntegerDocument_numberDocument h
  refine ⟨hdocument, ?_⟩
  intro texts i htext
  refine ⟨texts.map numberDocument, numberDocument text, rfl, ?_, hdocument⟩
  rw [List.getElem?_map, htext]
  rfl

/-! ## An integer of 65 bits -/

/-- The integer behind `2 ^ 64`. -/
def longText : String := "18446744073709551617"

/-- The real number that it is read as, `2 ^ 64`. -/
def longReal : Binary64 := ⟨false, 2 ^ 52, 1086, by decide⟩

theorem isInteger_longText : IsInteger 18446744073709551617 longText.toList := by
  have hwhole : IsWhole longText.toList := ⟨⟨by decide, List.all_eq_true.1 (by decide)⟩, nofun⟩
  exact .nonnegative hwhole

theorem isIntegerDocument_longText :
    IsInteger 18446744073709551617 longText.toList ∧
      IsIntegerDocument 18446744073709551617 longText (toDocument (.number longText)) ∧
      ∀ (texts : List String) (i : Nat), texts[i]? = some longText →
        ∃ items item, toDocument (.numberSet texts) = .array items ∧ items[i]? = some item ∧
          IsIntegerDocument 18446744073709551617 longText item :=
  ⟨isInteger_longText, isIntegerDocument_toDocument isInteger_longText⟩

theorem value_longReal : longReal.value = 18446744073709551616 := by
  have hunits : longReal.units = 18446744073709551616 * Binary64.one := by decide +kernel
  have hone : (Binary64.one : ℚ) ≠ 0 := Nat.cast_ne_zero.2 Binary64.one_pos.ne'
  have hmagnitude : longReal.magnitude = 18446744073709551616 := by
    rw [Binary64.magnitude, hunits, Nat.cast_mul, mul_div_cancel_right₀ _ hone]
    rfl
  exact hmagnitude

/-- The document of the integer is a number, but not of its value. -/
theorem value_lost_of_longText :
    IsInteger 18446744073709551617 longText.toList ∧
      toDocument (.number longText) = .number (.real longReal) ∧
      (Number.real longReal).value ≠ 18446744073709551617 := by
  have hread : Number.ofText? longText = some (.real longReal) := by decide +kernel
  refine ⟨isInteger_longText, ?_, ?_⟩
  · rw [toDocument, numberDocument_of_ofText? hread]
  · rw [Number.value, value_longReal]
    norm_num

end Wire.Value

end IndexedSearch
