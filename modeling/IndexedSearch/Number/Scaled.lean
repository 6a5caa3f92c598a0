import IndexedSearch.Number.Binary64
import IndexedSearch.Number.Numeral

/-!
# Numerals as scaled words

A numeral that is no integer of 64 bits is read in two steps. Its leading digits are taken into a
word of 64 bits for as long as they fit, and the other digits only count for the power of ten that
goes with the word. Then the word is rounded to binary64 and multiplied with, or divided by, that
power, which rounds again. The result is close to the numeral but need not be the number nearest to
it, and a numeral just below the bound of the largest number may be refused.
-/

namespace IndexedSearch

/-- The number `word * 10 ^ exponent`. -/
structure Scaled where
  word : Nat
  exponent : Int
deriving DecidableEq

namespace Scaled

/-- Appends digits to a word for as long as 64 bits hold the result; the word, and what is left. -/
def takeDigits (word : Nat) : List Char → Nat × List Char
  | [] => (word, [])
  | digit :: rest =>
    let longer := 10 * word + (digit.toNat - '0'.toNat)
    if longer < Nat.pow 2 64 then takeDigits longer rest else (word, digit :: rest)

/-- The word stays within 64 bits. -/
theorem takeDigits_fst_lt {word : Nat} (h : word < Nat.pow 2 64) (digits : List Char) :
    (takeDigits word digits).1 < Nat.pow 2 64 := by
  induction digits generalizing word with
  | nil => exact h
  | cons digit rest ih =>
    simp only [takeDigits]
    split
    · rename_i hfits
      exact ih hfits
    · exact h

/--
The leading digits of a numeral with their power of ten. Digits of the whole part that do not fit
are dropped, and so are those of the fraction, each part for itself.
-/
def ofNumeral (numeral : Numeral) : Scaled :=
  let (whole, wholeLeft) := takeDigits 0 numeral.whole
  let fraction := numeral.fraction.getD []
  let (word, fractionLeft) := takeDigits whole fraction
  { word
    exponent := numeral.exponent.getD 0 + wholeLeft.length +
      (fractionLeft.length - fraction.length) }

/-- The greatest power of ten that a single multiplication or division applies. -/
def maxPower : Nat := 308

/-- Multiplies by a power of ten, rounding once. Beyond the greatest power only zero stays. -/
def multiply? (x : Binary64) (exponent : Nat) : Option Binary64 :=
  if exponent ≤ maxPower then do x.mul? (← Binary64.ofNat? (Nat.pow 10 exponent))
  else if x.significand = 0 then some x
  else none

/--
Divides by a power of ten: at once up to the greatest power, then in two divisions. Of a word of 64
bits nothing is left beyond twice the greatest power.
-/
def divide? (x : Binary64) (exponent : Nat) : Option Binary64 :=
  if exponent ≤ maxPower then do x.div? (← Binary64.ofNat? (Nat.pow 10 exponent))
  else if exponent ≤ 2 * maxPower then do
    let reduced ← x.div? (← Binary64.ofNat? (Nat.pow 10 maxPower))
    reduced.div? (← Binary64.ofNat? (Nat.pow 10 (exponent - maxPower)))
  else some (Binary64.zero x.negative)

/-- The number under a sign, or `none` if it gets too large on the way. -/
def round? (negative : Bool) (scaled : Scaled) : Option Binary64 := do
  let word ← Binary64.ofNat? scaled.word
  let magnitude ←
    match scaled.exponent with
    | .ofNat exponent => multiply? word exponent
    | .negSucc exponent => divide? word (exponent + 1)
  return { magnitude with negative }

end Scaled

end IndexedSearch
