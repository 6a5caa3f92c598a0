import IndexedSearch.Number.Basic
import IndexedSearch.Proofs.Number.Rounding
import IndexedSearch.Proofs.Number.Scanning
import Mathlib.Algebra.Order.Field.Rat
import Mathlib.Tactic.GCongr
import Mathlib.Tactic.NormNum.Pow

/-!
# Reading integers

An integer of 64 bits, with a sign or without, is read as it is. Of a longer one, the leading digits
are taken into a word and rounded with the power of ten of the others, so that another number may be
read: one that differs from the integer by at most one part in `2 ^ 51`.
-/

namespace IndexedSearch

/-! ## The texts of integers -/

namespace Numeral

/-- The text of an integer: digits, behind a minus sign for a negative one. -/
inductive IsInteger : Int → List Char → Prop
  | nonnegative {digits : List Char} (h : IsWhole digits) :
    IsInteger (Nat.ofDigitChars 10 digits 0) digits
  | negative {digits : List Char} (h : IsWhole digits) (hzero : digits ≠ ['0']) :
    IsInteger (-Nat.ofDigitChars 10 digits 0) ('-' :: digits)

variable {digits : List Char}

/-- Digits are below the power of ten behind them. -/
theorem ofDigitChars_lt (hdigits : ∀ c ∈ digits, c.isDigit = true) (init : Nat) :
    Nat.ofDigitChars 10 digits init < (init + 1) * 10 ^ digits.length := by
  induction digits generalizing init with
  | nil => simp
  | cons c rest ih =>
    obtain ⟨hc, hrest⟩ := List.forall_mem_cons.1 hdigits
    have hdigit : c.toNat - '0'.toNat ≤ 9 := Nat.sub_le_sub_right (Char.isDigit_iff_toNat.1 hc).2 _
    rw [Nat.ofDigitChars_cons, List.length_cons]
    calc
      _ < (10 * init + (c.toNat - '0'.toNat) + 1) * 10 ^ rest.length := ih hrest _
      _ ≤ (10 * (init + 1)) * 10 ^ rest.length := Nat.mul_le_mul_right _ (by omega)
      _ = _ := by ring

theorem mul_le_ofDigitChars (digits : List Char) (init : Nat) :
    init * 10 ^ digits.length ≤ Nat.ofDigitChars 10 digits init := by
  rw [Nat.ofDigitChars_eq_ofDigitChars_zero, Nat.mul_comm]
  exact Nat.le_add_right _ _

/-- Digits are not zero, unless they are a single zero. -/
theorem IsWhole.ofDigitChars_pos (h : IsWhole digits) (hzero : digits ≠ ['0']) :
    0 < Nat.ofDigitChars 10 digits 0 := by
  obtain ⟨c, rest, rfl, hc⟩ := h.run.exists_eq_cons
  have hne : c ≠ '0' := by
    rintro rfl
    exact hzero (by rw [h.leading rest rfl])
  have hlt : '0'.toNat < c.toNat := by
    apply lt_of_le_of_ne (Char.isDigit_iff_toNat.1 hc).1
    exact fun heq ↦ hne (Char.toNat_inj.1 heq.symm)
  rw [Nat.ofDigitChars_cons]
  apply Nat.lt_of_lt_of_le _ (mul_le_ofDigitChars rest _)
  exact Nat.mul_pos (by omega) (Nat.pow_pos (by decide))

end Numeral

namespace Number

theorem ofNumeral?_nonnegative (digits : List Char) :
    ofNumeral? ⟨false, digits, none, none⟩ =
      if fits : Nat.ofDigitChars 10 digits 0 < Nat.pow 2 64 then some (natural _ fits)
      else realOfNumeral? ⟨false, digits, none, none⟩ :=
  rfl

theorem ofNumeral?_negative (digits : List Char) :
    ofNumeral? ⟨true, digits, none, none⟩ =
      if fits : 0 < Nat.ofDigitChars 10 digits 0 ∧ Nat.ofDigitChars 10 digits 0 ≤ Nat.pow 2 63 then
        some (negative _ fits)
      else realOfNumeral? ⟨true, digits, none, none⟩ :=
  rfl

end Number

/-! ## Leading digits -/

namespace Scaled

open Numeral (ofDigitChars_lt mul_le_ofDigitChars)

/-- The word and what is left of the digits: they are all in the word, or no other digit fits. -/
structure IsTaken (value : Nat) (taken : Nat × List Char) : Prop where
  lower : taken.1 * 10 ^ taken.2.length ≤ value
  upper : value < (taken.1 + 1) * 10 ^ taken.2.length
  full : taken.2 = [] ∨ 2 ^ 64 ≤ 10 * taken.1 + 9

theorem isTaken_takeDigits {digits : List Char} (hdigits : ∀ c ∈ digits, c.isDigit = true)
    (word : Nat) : IsTaken (Nat.ofDigitChars 10 digits word) (takeDigits word digits) := by
  induction digits generalizing word with
  | nil => exact ⟨by simp [takeDigits], by simp [takeDigits], .inl rfl⟩
  | cons c rest ih =>
    obtain ⟨hc, hrest⟩ := List.forall_mem_cons.1 hdigits
    rw [takeDigits]
    split
    · rw [Nat.ofDigitChars_cons]
      exact ih hrest _
    · rename_i hfull
      have hdigit : c.toNat - '0'.toNat ≤ 9 :=
        Nat.sub_le_sub_right (Char.isDigit_iff_toNat.1 hc).2 _
      rw [Nat.pow_eq, not_lt] at hfull
      exact ⟨mul_le_ofDigitChars _ _, ofDigitChars_lt hdigits _, .inr (by omega)⟩

theorem ofNumeral_whole (negative : Bool) (digits : List Char) :
    ofNumeral ⟨negative, digits, none, none⟩ =
      ⟨(takeDigits 0 digits).1, (takeDigits 0 digits).2.length⟩ := by
  simp [ofNumeral, takeDigits]

/-- The word of an integer that is not small has most of its value. -/
theorem IsTaken.two_pow_le {value : Nat} {taken : Nat × List Char} (h : IsTaken value taken)
    (hlarge : 2 ^ 53 ≤ value) : 2 ^ 53 ≤ taken.1 := by
  rcases h.full with hall | hfull
  · have hupper := h.upper
    rw [hall] at hupper
    simp only [List.length_nil, Nat.pow_zero, Nat.mul_one] at hupper
    omega
  · omega

theorem IsTaken.pred_mul_le {value : Nat} {taken : Nat × List Char} (h : IsTaken value taken)
    (hlarge : 2 ^ 53 ≤ value) :
    (2 ^ 53 - 1) * value ≤ 2 ^ 53 * (taken.1 * 10 ^ taken.2.length) := by
  have hword := h.two_pow_le hlarge
  calc
    (2 ^ 53 - 1) * value ≤ (2 ^ 53 - 1) * ((taken.1 + 1) * 10 ^ taken.2.length) :=
      Nat.mul_le_mul_left _ h.upper.le
    _ = (2 ^ 53 - 1) * (taken.1 + 1) * 10 ^ taken.2.length := (Nat.mul_assoc _ _ _).symm
    _ ≤ 2 ^ 53 * taken.1 * 10 ^ taken.2.length := Nat.mul_le_mul_right _ (by omega)
    _ = _ := Nat.mul_assoc _ _ _

end Scaled

/-! ## Exact values -/

namespace Binary64

/-- The magnitude as an exact number. -/
def magnitude (x : Binary64) : ℚ := x.units / one

/-- The exact value. -/
def value (x : Binary64) : ℚ := if x.negative then -x.magnitude else x.magnitude

/-- One part in `2 ^ 53`. -/
def part : ℚ := 1 / 2 ^ 53

theorem IsRounded.le {rounded exact : Nat} (h : IsRounded rounded exact) :
    (rounded : ℚ) ≤ (1 + part) * exact := by
  have hupper : (2 ^ 53 : ℚ) * rounded ≤ (2 ^ 53 + 1) * exact := by exact_mod_cast h.upper
  rw [part]
  linarith

theorem IsRounded.ge {rounded exact : Nat} (h : IsRounded rounded exact) :
    (1 - part) * exact ≤ (rounded : ℚ) := by
  have hlower : ((2 ^ 53 - 1 : Nat) : ℚ) * exact ≤ 2 ^ 53 * rounded := by exact_mod_cast h.lower
  norm_num at hlower
  rw [part]
  linarith

theorem part_pos : 0 < part := by norm_num [part]

theorem part_lt_one : part < 1 := by norm_num [part]

section

variable {first second x : Binary64} {word power value : Nat}

theorem magnitude_le (hfirst : IsRounded first.units (word * one))
    (hsecond : IsRounded second.units (power * one))
    (hproduct : IsRounded (x.units * one) (first.units * second.units))
    (hupper : word * power ≤ value) : x.magnitude ≤ (1 + part) ^ 3 * value := by
  have hone : (0 : ℚ) < one := by exact_mod_cast one_pos
  have hmore : 0 ≤ 1 + part := by linarith [part_pos]
  have hexact : (word * power : ℚ) ≤ value := by exact_mod_cast hupper
  rw [magnitude, div_le_iff₀ hone]
  apply le_of_mul_le_mul_right _ hone
  calc
    (x.units * one : ℚ) ≤ (1 + part) * (first.units * second.units) := by
      exact_mod_cast hproduct.le
    _ ≤ (1 + part) * ((1 + part) * (word * one) * ((1 + part) * (power * one))) := by
      gcongr
      · exact_mod_cast hfirst.le
      · exact_mod_cast hsecond.le
    _ = (1 + part) ^ 3 * (word * power) * one * one := by ring
    _ ≤ (1 + part) ^ 3 * value * one * one := by gcongr

theorem le_magnitude (hfirst : IsRounded first.units (word * one))
    (hsecond : IsRounded second.units (power * one))
    (hproduct : IsRounded (x.units * one) (first.units * second.units))
    (hkept : IsRounded (word * power) value) : (1 - part) ^ 4 * value ≤ x.magnitude := by
  have hone : (0 : ℚ) < one := by exact_mod_cast one_pos
  have hless : 0 ≤ 1 - part := sub_nonneg.2 part_lt_one.le
  have hexact : (1 - part) * value ≤ (word * power : ℚ) := by exact_mod_cast hkept.ge
  rw [magnitude, le_div_iff₀ hone]
  apply le_of_mul_le_mul_right _ hone
  calc
    (1 - part) ^ 4 * value * one * one = (1 - part) ^ 3 * ((1 - part) * value) * one * one := by
      ring
    _ ≤ (1 - part) ^ 3 * (word * power) * one * one := by gcongr (1 - part) ^ 3 * ?_ * one * one
    _ = (1 - part) * ((1 - part) * (word * one) * ((1 - part) * (power * one))) := by ring
    _ ≤ (1 - part) * (first.units * second.units) := by
      gcongr
      · exact_mod_cast hfirst.ge
      · exact_mod_cast hsecond.ge
    _ ≤ x.units * one := by exact_mod_cast hproduct.ge

end

end Binary64

/-! ## Integers of more than 64 bits -/

namespace Scaled

open Binary64 (IsRounded part)

theorem IsTaken.isRounded {value : Nat} {taken : Nat × List Char} (h : IsTaken value taken)
    (hlarge : 2 ^ 53 ≤ value) : IsRounded (taken.1 * 10 ^ taken.2.length) value := by
  have hlower := h.lower
  exact ⟨by omega, h.pred_mul_le hlarge⟩

/-- Three roundings, and the digits that are dropped before, change an integer by at most four
parts. -/
theorem abs_magnitude_sub_le {negative : Bool} {digits : List Char} {x : Binary64}
    (hdigits : ∀ c ∈ digits, c.isDigit = true)
    (hlarge : 2 ^ 53 ≤ Nat.ofDigitChars 10 digits 0)
    (h : (ofNumeral ⟨negative, digits, none, none⟩).round? negative = some x) :
    x.negative = negative ∧
      |x.magnitude - Nat.ofDigitChars 10 digits 0| ≤ Nat.ofDigitChars 10 digits 0 / 2 ^ 51 := by
  have htaken := isTaken_takeDigits hdigits 0
  have hpos : 0 < (takeDigits 0 digits).1 :=
    Nat.lt_of_lt_of_le (by decide) (htaken.two_pow_le hlarge)
  rw [ofNumeral_whole] at h
  obtain ⟨hnegative, first, second, hfirst, hsecond, hproduct⟩ := exists_of_round? hpos h
  refine ⟨hnegative, ?_⟩
  generalize Nat.ofDigitChars 10 digits 0 = value at htaken hlarge ⊢
  have hupper := Binary64.magnitude_le hfirst hsecond hproduct htaken.lower
  have hlower := Binary64.le_magnitude hfirst hsecond hproduct (htaken.isRounded hlarge)
  have hvalue : (0 : ℚ) ≤ value := Nat.cast_nonneg value
  have hmost : (1 + part) ^ 3 ≤ 1 + 1 / 2 ^ 51 := by norm_num [part]
  have hleast : 1 - 1 / 2 ^ 51 ≤ (1 - part) ^ 4 := by norm_num [part]
  have hmax := mul_le_mul_of_nonneg_right hmost hvalue
  have hmin := mul_le_mul_of_nonneg_right hleast hvalue
  rw [abs_le]
  constructor <;> linarith

/-- An integer below `10 ^ 308` is not too large. -/
theorem exists_round?_ofNumeral_eq_some (negative : Bool) {digits : List Char}
    (hdigits : ∀ c ∈ digits, c.isDigit = true) (hlarge : 2 ^ 53 ≤ Nat.ofDigitChars 10 digits 0)
    (hlt : Nat.ofDigitChars 10 digits 0 < 10 ^ 308) :
    ∃ x, (ofNumeral ⟨negative, digits, none, none⟩).round? negative = some x := by
  have htaken := isTaken_takeDigits hdigits 0
  have hpos : 0 < (takeDigits 0 digits).1 :=
    Nat.lt_of_lt_of_le (by decide) (htaken.two_pow_le hlarge)
  rw [ofNumeral_whole]
  exact exists_round?_eq_some negative hpos (htaken.lower.trans_lt hlt)

end Scaled

end IndexedSearch
