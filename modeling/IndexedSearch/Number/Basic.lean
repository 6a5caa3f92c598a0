import IndexedSearch.Number.Scaled

/-!
# Numbers

A number is a natural number of 64 bits, a negative integer of 64 bits, or a finite binary64 number;
the three kinds stay apart even where their values agree. `Number.text` writes a number and
`Number.ofText?` reads one: an integer numeral that fits keeps its kind, every other numeral is read
as a scaled word and becomes a binary64 number. Integers are read back as they were written; a real
number may be read back as one of its neighbours.
-/

namespace IndexedSearch

/-- A number, with its kind. -/
inductive Number where
  | natural (value : Nat) (fits : value < Nat.pow 2 64)
  | negative (magnitude : Nat) (fits : 0 < magnitude ∧ magnitude ≤ Nat.pow 2 63)
  | real (value : Binary64)
deriving DecidableEq

namespace Number

/-- A 64-bit word as a number. -/
def ofUInt64 (word : UInt64) : Number := natural word.toNat word.toNat_lt

/-- A 32-bit word as a number. -/
def ofUInt32 (word : UInt32) : Number :=
  natural word.toNat (Nat.lt_trans word.toNat_lt (by decide))

/-- The 64-bit word that the number is. Reals are refused, also those with an integer value. -/
def toUInt64? : Number → Option UInt64
  | natural value _ => some (UInt64.ofNat value)
  | _ => none

/-- The 32-bit word that the number is. -/
def toUInt32? : Number → Option UInt32
  | natural value _ => if value < Nat.pow 2 32 then some (UInt32.ofNat value) else none
  | _ => none

/-- The number that is an integer of 64 bits, signed or not. -/
def ofInt? : Int → Option Number
  | .ofNat value => if fits : value < Nat.pow 2 64 then some (natural value fits) else none
  | .negSucc value =>
    if fits : value + 1 ≤ Nat.pow 2 63 then some (negative (value + 1) ⟨Nat.succ_pos _, fits⟩)
    else none

/-! ## Writing -/

/-- How reals are written: the places of the leading digit that are written out in full. -/
structure Layout where
  lowest : Int
  highest : Int

/-- Reals from `0.00001` up to, but not including, `10 ^ 16` are written out in full. -/
def layout : Layout := ⟨-5, 15⟩

/-- A decimal written out in full, always with a fraction. -/
def positional (decimal : Decimal) : List Char :=
  match decimal.exponent with
  | .ofNat zeros => decimal.digits ++ List.replicate zeros '0' ++ ['.', '0']
  | .negSucc _ =>
    match decimal.leadingPlace with
    | .ofNat place => decimal.digits.take (place + 1) ++ '.' :: decimal.digits.drop (place + 1)
    | .negSucc zeros => '0' :: '.' :: List.replicate zeros '0' ++ decimal.digits

/-- A decimal as a leading digit, the other digits behind a point, and a signed exponent. -/
def scientific (decimal : Decimal) : List Char :=
  let fraction := decimal.digits.drop 1
  decimal.digits.take 1 ++ (if fraction.isEmpty then [] else '.' :: fraction) ++
    'e' :: (if decimal.leadingPlace < 0 then '-' else '+') ::
      Nat.toDigits 10 decimal.leadingPlace.natAbs

/-- The text of a decimal fraction. -/
def decimalChars (decimal : Decimal) : List Char :=
  if decimal.significand = 0 then ['0', '.', '0']
  else if layout.lowest ≤ decimal.leadingPlace ∧ decimal.leadingPlace ≤ layout.highest then
    positional decimal
  else scientific decimal

/-- The characters of a number. -/
def chars : Number → List Char
  | natural value _ => Nat.toDigits 10 value
  | negative magnitude _ => '-' :: Nat.toDigits 10 magnitude
  | real value =>
    (if value.negative then ['-'] else []) ++ decimalChars value.shortest

/-- The text of a number. -/
def text (number : Number) : String := String.ofList number.chars

/-! ## Reading -/

/-- The real number that a numeral is read as, or `none` if it is too large. -/
def realOfNumeral? (numeral : Numeral) : Option Number :=
  ((Scaled.ofNumeral numeral).round? numeral.negative).map real

/-- The real number nearest to a numeral, or `none` beyond the largest. -/
def nearestOfNumeral? (numeral : Numeral) : Option Number :=
  (Binary64.ofDecimal? numeral.negative numeral.magnitude).map real

/--
The number that a numeral denotes. An integer numeral keeps its kind where it fits; minus zero has
no integer kind and is the real one.
-/
def ofNumeral? (numeral : Numeral) : Option Number :=
  let value := numeral.wholeValue
  if numeral.isWhole then
    if numeral.negative then
      if fits : 0 < value ∧ value ≤ Nat.pow 2 63 then some (negative value fits)
      else realOfNumeral? numeral
    else
      if fits : value < Nat.pow 2 64 then some (natural value fits) else realOfNumeral? numeral
  else realOfNumeral? numeral

/-- The number that a whole text denotes, or `none` if the text is no numeral or too large. -/
def ofText? (text : String) : Option Number :=
  (Numeral.ofChars? text.toList).bind ofNumeral?

end Number

end IndexedSearch
