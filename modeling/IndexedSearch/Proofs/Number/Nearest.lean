import IndexedSearch.Number.Binary64
import Mathlib.Tactic.Ring

/-!
# The number nearest to its own decimals

A binary64 number is a whole multiple of the smallest one, and rounding leaves such a multiple as it
is. So a number is nearest to its exact decimal expansion, and to its shortest decimal as well.
-/

namespace IndexedSearch

namespace Decimal

/-- Exactly the trailing zeros move into the exponent. -/
theorem stripTens_mul_pow {significand zeros fuel : Nat} (hmod : significand % 10 ≠ 0)
    (hfuel : zeros ≤ fuel) (exponent : Int) :
    stripTens fuel (significand * 10 ^ zeros) exponent = (significand, exponent + zeros) := by
  induction zeros generalizing fuel exponent with
  | zero =>
    cases fuel with
    | zero => simp [stripTens]
    | succ fuel => simp [stripTens, hmod]
  | succ zeros ih =>
    obtain ⟨fuel, rfl⟩ : ∃ inner, fuel = inner + 1 := ⟨fuel - 1, by omega⟩
    have hten : significand * 10 ^ (zeros + 1) = 10 * (significand * 10 ^ zeros) := by ring
    rw [hten, stripTens, if_pos (Nat.mul_mod_right 10 _), Nat.mul_div_cancel_left _ (by decide),
      ih (by omega)]
    push_cast
    ring_nf

/-- What is stripped are zeros behind the digits that are left. -/
theorem exists_stripTens (fuel significand : Nat) (exponent : Int) :
    ∃ zeros : Nat, (stripTens fuel significand exponent).1 * 10 ^ zeros = significand ∧
      (stripTens fuel significand exponent).2 = exponent + zeros := by
  induction fuel generalizing significand exponent with
  | zero => exact ⟨0, by simp [stripTens], by simp [stripTens]⟩
  | succ fuel ih =>
    rw [stripTens]
    split
    · rename_i hmod
      obtain ⟨zeros, hdigits, hexponent⟩ := ih (significand / 10) (exponent + 1)
      refine ⟨zeros + 1, ?_, ?_⟩
      · rw [Nat.pow_succ, ← Nat.mul_assoc, hdigits]
        omega
      · rw [hexponent]
        push_cast
        ring
    · exact ⟨0, Nat.mul_one _, (Int.add_zero _).symm⟩

/-- A decimal is the decimal of its digits and any number of zeros behind them. -/
theorem ofScaled_mul_pow (decimal : Decimal) (zeros : Nat) :
    ofScaled (decimal.significand * 10 ^ zeros) (decimal.exponent - zeros) = decimal := by
  obtain ⟨significand, exponent, canonical⟩ := decimal
  rcases canonical with hmod | ⟨rfl, rfl⟩
  · have hpos : significand * 10 ^ zeros ≠ 0 :=
      Nat.mul_ne_zero (by omega) (pow_ne_zero _ (by decide))
    have hfuel : zeros ≤ significand * 10 ^ zeros :=
      (Nat.lt_pow_self (by decide)).le.trans (Nat.le_mul_of_pos_left _ (by omega))
    simp only [ofScaled, dif_neg hpos, stripTens_mul_pow hmod hfuel, Int.sub_add_cancel]
  · rw [Nat.zero_mul]
    rfl

/-- The decimal of a positive number has its digits, up to zeros behind them. -/
theorem exists_ofScaled {significand : Nat} (h : significand ≠ 0) (exponent : Int) :
    ∃ zeros : Nat, (ofScaled significand exponent).significand * 10 ^ zeros = significand ∧
      (ofScaled significand exponent).exponent = exponent + zeros := by
  rw [ofScaled, dif_neg h]
  exact exists_stripTens significand significand exponent

end Decimal

namespace Binary64

variable {x : Binary64} {decimal : Decimal} {den zeros : Nat}

/-! ## Multiples of the smallest number -/

theorem roundQuotient_mul (num : Nat) (hden : 0 < den) : roundQuotient (num * den) den = num := by
  rw [roundQuotient, Nat.mul_mod_left, if_pos (.inl (by omega)), Nat.mul_div_cancel _ hden]

/-- The scale of a number can be told from the size of its magnitude. -/
theorem log2_units (x : Binary64) : x.units.log2 - 52 = x.scale := by
  obtain ⟨negative, significand, scale, hsignificand, hscale, hnormal⟩ := x
  simp only [units, Nat.pow_eq] at hsignificand hnormal ⊢
  rcases Nat.eq_zero_or_pos significand with rfl | hpos
  · rcases hnormal with rfl | hnormal
    · rfl
    · omega
  · have hne : significand * 2 ^ scale ≠ 0 := Nat.mul_ne_zero (by omega) (Nat.two_pow_pos scale).ne'
    have hupper : (significand * 2 ^ scale).log2 < 53 + scale := by
      rw [Nat.log2_lt hne, Nat.pow_add]
      exact Nat.mul_lt_mul_of_pos_right hsignificand (Nat.two_pow_pos scale)
    rcases hnormal with rfl | hnormal
    · omega
    · have hlower : 52 + scale ≤ (significand * 2 ^ scale).log2 := by
        rw [Nat.le_log2 hne, Nat.pow_add]
        exact Nat.mul_le_mul_right _ hnormal
      omega

/-- A number is the one nearest to its own magnitude. -/
theorem ofUnits?_units (x : Binary64) (hden : 0 < den) :
    ofUnits? x.negative (x.units * den) den = some x := by
  have hsignificand : x.significand < Nat.pow 2 53 := x.normal.1
  have hquotient : roundQuotient (x.units * den) (den * Nat.pow 2 x.scale) = x.significand := by
    have hproduct : x.units * den = x.significand * (den * Nat.pow 2 x.scale) := by
      rw [units]
      ring
    rw [hproduct]
    exact roundQuotient_mul _ (Nat.mul_pos hden (Nat.pow_pos (by decide)))
  simp only [ofUnits?, Nat.mul_div_cancel _ hden, log2_units, hquotient, if_pos hsignificand]
  rw [ofParts?, dif_pos x.normal]

/-! ## Powers of ten beside powers of two -/

section

variable {significand scale units n m e a zeros : Nat}

theorem mul_two_pow_lt {p q : Nat} (hsignificand : significand < Nat.pow 2 p) (hscale : scale ≤ q)
    (hsum : p + q = n + m) : significand * Nat.pow 2 scale < Nat.pow 2 n * Nat.pow 2 m := by
  simp only [Nat.pow_eq] at hsignificand ⊢
  rw [← Nat.pow_add, ← hsum, Nat.pow_add]
  calc
    _ < 2 ^ p * 2 ^ scale := Nat.mul_lt_mul_of_pos_right hsignificand (Nat.two_pow_pos scale)
    _ ≤ _ := Nat.mul_le_mul_left _ (Nat.pow_le_pow_right (by decide) hscale)

/-- What is less than a power of two is less than the power of ten above it. -/
theorem mul_five_pow_lt (hunits : units < Nat.pow 2 n * Nat.pow 2 m)
    (hten : Nat.pow 2 m ≤ Nat.pow 10 e) (hzeros : n + e ≤ zeros) :
    units * Nat.pow 5 n < Nat.pow 10 zeros := by
  simp only [Nat.pow_eq] at hunits hten ⊢
  calc
    _ < 2 ^ n * 2 ^ m * 5 ^ n := Nat.mul_lt_mul_of_pos_right hunits (Nat.pow_pos (by decide))
    _ ≤ 2 ^ n * 10 ^ e * 5 ^ n := Nat.mul_le_mul_right _ (Nat.mul_le_mul_left _ hten)
    _ = 10 ^ (n + e) := by rw [Nat.mul_right_comm, ← Nat.mul_pow, ← Nat.pow_add]
    _ ≤ _ := Nat.pow_le_pow_right (by decide) hzeros

/-- What is at least a power of two is at least the power of ten below it. -/
theorem ten_pow_le_five_pow (hten : Nat.pow 2 n ≤ Nat.pow 10 e) (ha : a + e ≤ n) :
    Nat.pow 10 a ≤ Nat.pow 5 n := by
  simp only [Nat.pow_eq] at hten ⊢
  apply Nat.le_of_mul_le_mul_right _ (Nat.two_pow_pos n)
  calc
    _ ≤ 10 ^ a * 10 ^ e := Nat.mul_le_mul_left _ hten
    _ = 10 ^ (a + e) := (Nat.pow_add _ _ _).symm
    _ ≤ 10 ^ n := Nat.pow_le_pow_right (by decide) ha
    _ = _ := Nat.mul_pow 5 2 n

theorem mul_ten_pow_eq (h : significand * Nat.pow 10 (e + n) = units * Nat.pow 5 n) :
    significand * Nat.pow 10 e * Nat.pow 2 n = units := by
  simp only [Nat.pow_eq] at h ⊢
  apply Nat.eq_of_mul_eq_mul_right (Nat.pow_pos (by decide) : 0 < 5 ^ n)
  calc
    _ = significand * 10 ^ e * (2 ^ n * 5 ^ n) := Nat.mul_assoc _ _ _
    _ = significand * 10 ^ (e + n) := by rw [← Nat.mul_pow, Nat.mul_assoc, ← Nat.pow_add]
    _ = _ := h

theorem mul_two_pow_eq (h : significand * Nat.pow 10 zeros = units * Nat.pow 5 n)
    (hsum : zeros + e = n) : significand * Nat.pow 2 n = units * Nat.pow 10 e := by
  simp only [Nat.pow_eq] at h ⊢
  apply Nat.eq_of_mul_eq_mul_right (Nat.pow_pos (by decide) : 0 < 5 ^ n)
  calc
    _ = significand * (2 ^ n * 5 ^ n) := Nat.mul_assoc _ _ _
    _ = significand * 10 ^ zeros * 10 ^ e := by
      rw [← Nat.mul_pow, Nat.mul_assoc, ← Nat.pow_add, hsum]
    _ = _ := by rw [h, Nat.mul_right_comm]

end

/-! ## Decimals of a number -/

theorem decimalUnits_lt (x : Binary64) (h : 1074 + 309 ≤ zeros) :
    x.decimalUnits < Nat.pow 10 zeros := by
  have hten : Nat.pow 2 1024 ≤ Nat.pow 10 309 := by decide +kernel
  have hsum : 53 + 2045 = 1074 + 1024 := by decide
  rw [decimalUnits, units]
  generalize 1074 = n, 1024 = m at h hten hsum ⊢
  exact mul_five_pow_lt (mul_two_pow_lt x.normal.1 x.normal.2.1 hsum) hten h

theorem le_decimalUnits {a : Nat} (hpos : 0 < x.units) (h : a + 324 ≤ 1074) :
    Nat.pow 10 a ≤ x.decimalUnits := by
  have hten : Nat.pow 2 1074 ≤ Nat.pow 10 324 := by decide +kernel
  rw [decimalUnits]
  generalize 1074 = n at h hten ⊢
  exact (ten_pow_le_five_pow hten h).trans (Nat.le_mul_of_pos_left _ hpos)

/-- A decimal with the exact digits of a positive number is read as that number. -/
theorem ofDecimal?_of_mul_pow (hpos : 0 < x.units)
    (hdigits : decimal.significand * Nat.pow 10 zeros = x.decimalUnits)
    (hexponent : decimal.exponent = -1074 + zeros) :
    ofDecimal? x.negative decimal = some x := by
  have hne : 0 < decimal.significand := by
    apply Nat.pos_of_ne_zero
    intro hzero
    rw [hzero, Nat.zero_mul] at hdigits
    have hone := le_decimalUnits (a := 0) hpos (by decide)
    rw [← hdigits] at hone
    exact absurd hone (by decide)
  have hupper : ¬ 309 ≤ decimal.exponent := by
    intro hguard
    have hlt := x.decimalUnits_lt (show 1074 + 309 ≤ zeros by omega)
    rw [← hdigits] at hlt
    exact absurd (Nat.le_mul_of_pos_left _ hne) (Nat.not_le_of_lt hlt)
  have hlower : ¬ decimal.exponent + decimal.significand.log2 + 1 ≤ -324 := by
    intro hguard
    have hle := le_decimalUnits (a := decimal.significand.log2 + 1 + zeros) hpos (by omega)
    rw [← hdigits] at hle
    simp only [Nat.pow_eq, Nat.pow_add _ _ zeros] at hle
    have hlog : decimal.significand < 10 ^ (decimal.significand.log2 + 1) :=
      Nat.lt_log2_self.trans_le (Nat.pow_le_pow_left (by decide) _)
    exact absurd (Nat.le_of_mul_le_mul_right hle (Nat.pow_pos (by decide))) (Nat.not_le_of_lt hlog)
  rw [ofDecimal?, if_neg (Nat.ne_of_gt hne), if_neg hupper, if_neg hlower]
  cases hcases : decimal.exponent with
  | ofNat exponent =>
    have hsum : zeros = exponent + 1074 := by
      rw [hcases, Int.ofNat_eq_natCast] at hexponent
      omega
    rw [decimalUnits, hsum] at hdigits
    dsimp only
    generalize 1074 = n at hdigits ⊢
    rw [mul_ten_pow_eq hdigits, ← Nat.mul_one x.units]
    exact x.ofUnits?_units Nat.one_pos
  | negSucc exponent =>
    have hsum : zeros + (exponent + 1) = 1074 := by
      rw [hcases, Int.negSucc_eq] at hexponent
      omega
    rw [decimalUnits] at hdigits
    dsimp only
    generalize 1074 = n at hdigits hsum ⊢
    rw [mul_two_pow_eq hdigits hsum]
    exact x.ofUnits?_units (Nat.pow_pos (by decide))

/-- The exact decimal expansion of a number is read as that number. -/
theorem ofDecimal?_exactDecimal (x : Binary64) :
    ofDecimal? x.negative x.exactDecimal = some x := by
  rcases Nat.eq_zero_or_pos x.units with hzero | hpos
  · -- Zero has no digits to strip, and its sign is all that is left of it.
    have hsignificand : x.significand = 0 :=
      (Nat.mul_eq_zero.1 hzero).resolve_right (Nat.ne_of_gt (Nat.two_pow_pos _))
    obtain ⟨negative, significand, scale, hnormal⟩ := x
    obtain rfl : significand = 0 := hsignificand
    obtain rfl : scale = 0 := hnormal.2.2.resolve_right (by decide)
    rw [exactDecimal, decimalUnits, units, Nat.zero_mul]
    generalize Nat.pow 5 1074 = power
    rw [Nat.zero_mul, Decimal.ofScaled, dif_pos rfl, ofDecimal?, if_pos (by rfl)]
    rfl
  · have hne : x.decimalUnits ≠ 0 :=
      Nat.ne_of_gt (Nat.lt_of_lt_of_le Nat.one_pos (le_decimalUnits (a := 0) hpos (by decide)))
    obtain ⟨zeros, hdigits, hexponent⟩ := Decimal.exists_ofScaled hne (-1074)
    exact ofDecimal?_of_mul_pow hpos hdigits hexponent

/-- A neighbour is taken only if it passes the test. -/
theorem passes_of_neighbour? {passes : Decimal → Bool} {units count : Nat}
    (h : neighbour? passes units count = some decimal) : passes decimal = true := by
  simp only [neighbour?] at h
  split at h
  · rename_i hbelow habove
    split at h
    · exact Option.some.inj h ▸ hbelow
    · exact Option.some.inj h ▸ habove
  · rename_i hbelow _
    exact Option.some.inj h ▸ hbelow
  · rename_i _ habove
    exact Option.some.inj h ▸ habove
  · cases h

theorem isNearestTo_of_withDigits? {count : Nat} (h : x.withDigits? count = some decimal) :
    x.isNearestTo decimal = true := by
  rw [withDigits?] at h
  exact passes_of_neighbour? h

/-- The shortest decimal of a number is read as that number. -/
theorem ofDecimal?_shortest (x : Binary64) : ofDecimal? x.negative x.shortest = some x := by
  rw [shortest]
  cases hfound : (List.range 17).findSome? fun i ↦ x.withDigits? (i + 1) with
  | none =>
    rw [Option.getD_none]
    exact x.ofDecimal?_exactDecimal
  | some decimal =>
    rw [Option.getD_some]
    obtain ⟨i, _, hdigits⟩ := List.exists_of_findSome?_eq_some hfound
    have hnearest := isNearestTo_of_withDigits? hdigits
    rw [isNearestTo] at hnearest
    exact beq_iff_eq.1 hnearest

end Binary64

end IndexedSearch
