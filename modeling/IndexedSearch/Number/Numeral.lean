import IndexedSearch.Number.Decimal

/-!
# The grammar of written numbers

A numeral is an optional minus sign, a whole part without needless leading zeros, an optional
fraction and an optional exponent. `Numeral.scan?` reads the longest digit runs from the front of a
text and returns what follows; `Numeral.ofChars?` wants the whole text to be one numeral.
-/

namespace IndexedSearch

/-- A number as it is written, its digits kept as text. -/
structure Numeral where
  negative : Bool
  whole : List Char
  fraction : Option (List Char)
  exponent : Option Int
deriving DecidableEq

namespace Numeral

/-- The digits at the front of a text, and the rest. -/
def spanDigits (text : List Char) : List Char × List Char :=
  (text.takeWhile Char.isDigit, text.dropWhile Char.isDigit)

/-- A nonempty run of digits. -/
def scanDigits? (text : List Char) : Option (List Char × List Char) :=
  match spanDigits text with
  | ([], _) => none
  | spanned => some spanned

/-- An optional minus sign; true when it is there. -/
def scanSign : List Char → Bool × List Char
  | '-' :: rest => (true, rest)
  | text => (false, text)

/-- The whole part: digits that start with a zero only if they are a single one. -/
def scanWhole? (text : List Char) : Option (List Char × List Char) :=
  match scanDigits? text with
  | some ('0' :: _ :: _, _) => none
  | scanned => scanned

/-- The fraction: a point and digits, or nothing. A point without digits is refused. -/
def scanFraction? : List Char → Option (Option (List Char) × List Char)
  | '.' :: rest => (scanDigits? rest).map fun (digits, rest) ↦ (some digits, rest)
  | text => some (none, text)

/-- The digits of an exponent as a number, under the sign before them. -/
def scanPower? (text : List Char) : Option (Int × List Char) :=
  let (negative, unsigned) :=
    match text with
    | '+' :: rest => (false, rest)
    | '-' :: rest => (true, rest)
    | _ => (false, text)
  (scanDigits? unsigned).map fun (digits, rest) ↦
    let magnitude : Int := Nat.ofDigitChars 10 digits 0
    (if negative then -magnitude else magnitude, rest)

/-- The exponent: a letter, an optional sign and digits, or nothing. -/
def scanExponent? : List Char → Option (Option Int × List Char)
  | 'e' :: rest | 'E' :: rest => (scanPower? rest).map fun (power, rest) ↦ (some power, rest)
  | text => some (none, text)

/-- The numeral at the front of a text, and the rest. -/
def scan? (text : List Char) : Option (Numeral × List Char) := do
  let (negative, text) := scanSign text
  let (whole, text) ← scanWhole? text
  let (fraction, text) ← scanFraction? text
  let (exponent, text) ← scanExponent? text
  return (⟨negative, whole, fraction, exponent⟩, text)

/-- The numeral that a whole text is. -/
def ofChars? (text : List Char) : Option Numeral :=
  match scan? text with
  | some (numeral, []) => some numeral
  | _ => none

/-- Neither a fraction nor an exponent is written. -/
def isWhole (numeral : Numeral) : Bool :=
  numeral.fraction.isNone && numeral.exponent.isNone

/-- The value of the whole part. -/
def wholeValue (numeral : Numeral) : Nat :=
  Nat.ofDigitChars 10 numeral.whole 0

/-- The magnitude that is written. -/
def magnitude (numeral : Numeral) : Decimal :=
  let fraction := numeral.fraction.getD []
  Decimal.ofScaled (Nat.ofDigitChars 10 (numeral.whole ++ fraction) 0)
    (numeral.exponent.getD 0 - fraction.length)

end Numeral

end IndexedSearch
