/-!
# Decimal fractions

A decimal fraction is kept without trailing zeros, so that every nonnegative value has one
representation. `Decimal.ofScaled` brings any significand and exponent into this form.
-/

namespace IndexedSearch

/-- The nonnegative number `significand * 10 ^ exponent`, written without trailing zeros. -/
structure Decimal where
  significand : Nat
  exponent : Int
  canonical : significand % 10 ≠ 0 ∨ (significand = 0 ∧ exponent = 0)
deriving DecidableEq

namespace Decimal

/-- Moves factors of ten from the significand into the exponent, at most `fuel` of them. -/
def stripTens : (fuel significand : Nat) → (exponent : Int) → Nat × Int
  | 0, significand, exponent => (significand, exponent)
  | fuel + 1, significand, exponent =>
    if significand % 10 = 0 then stripTens fuel (significand / 10) (exponent + 1)
    else (significand, exponent)

/-- As many steps as the significand is large leave no factor of ten. -/
theorem stripTens_mod_ten {fuel significand : Nat} (exponent : Int)
    (hpos : 0 < significand) (hfuel : significand ≤ fuel) :
    (stripTens fuel significand exponent).1 % 10 ≠ 0 := by
  induction fuel generalizing significand exponent with
  | zero => omega
  | succ fuel ih =>
    unfold stripTens
    split
    · exact ih _ (by omega) (by omega)
    · assumption

/-- Zero. -/
def zero : Decimal := ⟨0, 0, .inr ⟨rfl, rfl⟩⟩

/-- The decimal fraction `significand * 10 ^ exponent`. -/
def ofScaled (significand : Nat) (exponent : Int) : Decimal :=
  if h : significand = 0 then zero
  else
    let stripped := stripTens significand significand exponent
    have hpos := Nat.pos_of_ne_zero h
    ⟨stripped.1, stripped.2, .inl (stripTens_mod_ten exponent hpos (Nat.le_refl _))⟩

/-- The decimal digits of the significand, the leading one first. -/
def digits (decimal : Decimal) : List Char :=
  Nat.toDigits 10 decimal.significand

/-- The power of ten of the leading digit. -/
def leadingPlace (decimal : Decimal) : Int :=
  decimal.digits.length + decimal.exponent - 1

end Decimal

end IndexedSearch
