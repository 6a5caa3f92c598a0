import IndexedSearch.Number.Decimal

/-!
# Finite double precision numbers

A finite binary64 number is a sign and a multiple of `2 ^ -1074`, held as a significand of at most
53 bits and a scale. A rational number is rounded to the nearest such number, ties to the even
significand; products, quotients and decimal fractions are computed exactly and then rounded.
Writing a number looks for the fewest decimal digits to which it is the nearest.
-/

namespace IndexedSearch

/-- The number `± significand * 2 ^ scale * 2 ^ -1074`. The last field makes the form unique. -/
structure Binary64 where
  negative : Bool
  significand : Nat
  scale : Nat
  normal : significand < Nat.pow 2 53 ∧ scale ≤ 2045 ∧ (scale = 0 ∨ Nat.pow 2 52 ≤ significand)
deriving DecidableEq

namespace Binary64

/-- Zero, with a sign. -/
def zero (negative : Bool) : Binary64 := ⟨negative, 0, 0, by decide⟩

/-- The magnitude as a multiple of `2 ^ -1074`. -/
def units (x : Binary64) : Nat := x.significand * Nat.pow 2 x.scale

/-- The number with the given parts, if they fit. -/
def ofParts? (negative : Bool) (significand scale : Nat) : Option Binary64 :=
  if h : significand < Nat.pow 2 53 ∧ scale ≤ 2045 ∧
      (scale = 0 ∨ Nat.pow 2 52 ≤ significand) then
    some ⟨negative, significand, scale, h⟩
  else none

/-! ## Rounding -/

/-- The natural number nearest to `num / den`; of two equally near ones the even one. -/
def roundQuotient (num den : Nat) : Nat :=
  if 2 * (num % den) < den ∨ (2 * (num % den) = den ∧ num / den % 2 = 0) then num / den
  else num / den + 1

/-- The number nearest to `num / den` multiples of `2 ^ -1074`, or `none` beyond the largest. -/
def ofUnits? (negative : Bool) (num den : Nat) : Option Binary64 :=
  let scale := (num / den).log2 - 52
  let significand := roundQuotient num (den * Nat.pow 2 scale)
  if significand < Nat.pow 2 53 then ofParts? negative significand scale
  else ofParts? negative (Nat.pow 2 52) (scale + 1)

/--
The number nearest to a decimal fraction, or `none` beyond the largest. The two guards only save
work: a positive fraction with exponent 309 or more is too large, and one below `10 ^ -324` is
nearer to zero than to any other number.
-/
def ofDecimal? (negative : Bool) (decimal : Decimal) : Option Binary64 :=
  if decimal.significand = 0 then some (zero negative)
  else if 309 ≤ decimal.exponent then none
  else if decimal.exponent + decimal.significand.log2 + 1 ≤ -324 then some (zero negative)
  else
    match decimal.exponent with
    | .ofNat exponent =>
      ofUnits? negative (decimal.significand * Nat.pow 10 exponent * Nat.pow 2 1074) 1
    | .negSucc exponent =>
      ofUnits? negative (decimal.significand * Nat.pow 2 1074) (Nat.pow 10 (exponent + 1))

/-! ## Arithmetic -/

/-- The number nearest to a natural number, or `none` beyond the largest. -/
def ofNat? (value : Nat) : Option Binary64 := ofUnits? false (value * Nat.pow 2 1074) 1

/-- The rounded product, or `none` beyond the largest number. -/
def mul? (x y : Binary64) : Option Binary64 :=
  ofUnits? (x.negative != y.negative) (x.units * y.units) (Nat.pow 2 1074)

/-- The rounded quotient, or `none` beyond the largest number. The divisor must not be zero. -/
def div? (x y : Binary64) : Option Binary64 :=
  ofUnits? (x.negative != y.negative) (x.units * Nat.pow 2 1074) y.units

/-! ## Shortest digits -/

/-- The magnitude as a multiple of `10 ^ -1074`; every binary64 number has such a form. -/
def decimalUnits (x : Binary64) : Nat := x.units * Nat.pow 5 1074

/-- The exact decimal expansion of the magnitude. -/
def exactDecimal (x : Binary64) : Decimal := Decimal.ofScaled x.decimalUnits (-1074)

/-- Under the sign of `x`, the number nearest to a decimal fraction is `x`. -/
def isNearestTo (x : Binary64) (decimal : Decimal) : Bool :=
  ofDecimal? x.negative decimal == some x

/--
The decimal of `count` digits that passes a test, of the two neighbours of a multiple of
`10 ^ -1074` on the grid of its leading `count` digits. Where both pass, the nearer is taken, and
of two equally near ones the even one.
-/
def neighbour? (passes : Decimal → Bool) (units count : Nat) : Option Decimal :=
  let dropped := (Nat.toDigits 10 units).length - count
  let step := Nat.pow 10 dropped
  let low := units / step
  let rest := units % step
  let below := Decimal.ofScaled low (dropped - 1074)
  let above := Decimal.ofScaled (low + 1) (dropped - 1074)
  match passes below, passes above with
  | true, true =>
    if 2 * rest < step ∨ (2 * rest = step ∧ low % 2 = 0) then some below
    else some above
  | true, false => some below
  | false, true => some above
  | false, false => none

/--
The decimal of `count` digits to which `x` is nearest, if there is one. Only the two neighbours of
`x` on the grid of its leading `count` digits can be.
-/
def withDigits? (x : Binary64) (count : Nat) : Option Decimal :=
  neighbour? x.isNearestTo x.decimalUnits count

/-- The decimal of fewest digits to which `x` is nearest, and of those the one nearest to `x`. -/
def shortest (x : Binary64) : Decimal :=
  ((List.range 17).findSome? fun i ↦ x.withDigits? (i + 1)).getD x.exactDecimal

end Binary64

end IndexedSearch
