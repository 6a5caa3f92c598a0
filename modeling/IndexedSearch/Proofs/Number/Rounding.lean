import IndexedSearch.Number.Scaled
import IndexedSearch.Proofs.Outcome
import Mathlib.Tactic.Linarith
import Mathlib.Tactic.Ring

/-!
# How far rounding goes

Rounding a number that is not too small changes it by at most one part in `2 ^ 53`, and fails only
beyond the largest number. All magnitudes are counted in the smallest positive number, `2 ^ -1074`.
-/

namespace IndexedSearch.Binary64

/-- The first number differs from the second one by at most one part in `2 ^ 53`. -/
structure IsRounded (rounded exact : Nat) : Prop where
  upper : 2 ^ 53 * rounded ≤ (2 ^ 53 + 1) * exact
  lower : (2 ^ 53 - 1) * exact ≤ 2 ^ 53 * rounded

variable {negative : Bool} {num den : Nat} {x y z : Binary64}

/-! ## Rounding to a multiple -/

/-- The nearest multiple is at most half a step away. -/
theorem roundQuotient_near (num : Nat) (hden : 0 < den) :
    2 * num ≤ 2 * (roundQuotient num den * den) + den ∧
      2 * (roundQuotient num den * den) ≤ 2 * num + den := by
  have hnum := Nat.div_add_mod' num den
  have hrest := Nat.mod_lt num hden
  rw [roundQuotient]
  split
  · omega
  · rw [Nat.add_mul]
    omega

theorem div_le_roundQuotient (num den : Nat) : num / den ≤ roundQuotient num den := by
  rw [roundQuotient]
  split
  · exact le_rfl
  · exact Nat.le_succ _

/-- The scale that `ofUnits?` gives to a quotient. -/
def scaleOf (num den : Nat) : Nat := (num / den).log2 - 52

/-- The step of the multiples that a quotient is rounded to. -/
def stepOf (num den : Nat) : Nat := den * 2 ^ scaleOf num den

theorem stepOf_pos (num : Nat) (hden : 0 < den) : 0 < stepOf num den :=
  Nat.mul_pos hden (Nat.two_pow_pos _)

/-- A quotient has at most 53 bits before its scale. -/
theorem lt_stepOf_mul (num : Nat) (hden : 0 < den) : num < stepOf num den * 2 ^ 53 := by
  have hlog : num / den < 2 ^ ((num / den).log2 + 1) := Nat.lt_log2_self
  have hscale : (num / den).log2 + 1 ≤ scaleOf num den + 53 := by
    unfold scaleOf
    omega
  have hquotient : num / den < 2 ^ (scaleOf num den + 53) :=
    hlog.trans_le (Nat.pow_le_pow_right (by decide) hscale)
  rw [Nat.div_lt_iff_lt_mul hden, Nat.pow_add] at hquotient
  calc
    num < 2 ^ scaleOf num den * 2 ^ 53 * den := hquotient
    _ = stepOf num den * 2 ^ 53 := by
      rw [stepOf]
      ring

/-- A quotient that is not too small has at least 53 bits before its scale. -/
theorem stepOf_mul_le (hden : 0 < den) (hlarge : den * 2 ^ 52 ≤ num) :
    stepOf num den * 2 ^ 52 ≤ num := by
  have hquotient : 2 ^ 52 ≤ num / den := (Nat.le_div_iff_mul_le hden).2 (by omega)
  have hne : num / den ≠ 0 := by omega
  have hlog : 52 ≤ (num / den).log2 := (Nat.le_log2 hne).2 hquotient
  have hscale : scaleOf num den + 52 = (num / den).log2 := by
    unfold scaleOf
    omega
  have hpower : 2 ^ (scaleOf num den + 52) ≤ num / den := by
    rw [hscale]
    exact Nat.log2_self_le hne
  rw [Nat.le_div_iff_mul_le hden, Nat.pow_add] at hpower
  calc
    stepOf num den * 2 ^ 52 = 2 ^ scaleOf num den * 2 ^ 52 * den := by
      rw [stepOf]
      ring
    _ ≤ num := hpower

theorem roundQuotient_le (num : Nat) (hden : 0 < den) :
    roundQuotient num (stepOf num den) ≤ 2 ^ 53 := by
  have hlt : num / stepOf num den < 2 ^ 53 :=
    Nat.div_lt_of_lt_mul (lt_stepOf_mul num hden)
  rw [roundQuotient]
  split
  · exact hlt.le
  · exact hlt

/-! ## Rounding a quotient -/

theorem eq_of_ofParts? {significand scale : Nat}
    (h : ofParts? negative significand scale = some x) :
    x.negative = negative ∧ x.units = significand * 2 ^ scale := by
  rw [ofParts?] at h
  split at h
  · cases h
    exact ⟨rfl, rfl⟩
  · cases h

theorem ofUnits?_eq (negative : Bool) (num den : Nat) :
    ofUnits? negative num den =
      if roundQuotient num (stepOf num den) < 2 ^ 53 then
        ofParts? negative (roundQuotient num (stepOf num den)) (scaleOf num den)
      else ofParts? negative (2 ^ 52) (scaleOf num den + 1) :=
  rfl

/-- The number that a quotient is rounded to is a multiple of the step. -/
theorem eq_of_ofUnits? (hden : 0 < den) (h : ofUnits? negative num den = some x) :
    x.negative = negative ∧
      x.units = roundQuotient num (stepOf num den) * 2 ^ scaleOf num den := by
  have hle := roundQuotient_le num hden
  rw [ofUnits?_eq] at h
  split at h
  · exact eq_of_ofParts? h
  · -- The significand has become one bit longer.
    rename_i hcarry
    obtain ⟨hnegative, hunits⟩ := eq_of_ofParts? h
    have hsignificand : roundQuotient num (stepOf num den) = 2 ^ 53 := by omega
    refine ⟨hnegative, ?_⟩
    rw [hunits, hsignificand]
    ring

theorem isRounded_of_ofUnits? (hden : 0 < den) (hlarge : den * 2 ^ 52 ≤ num)
    (h : ofUnits? negative num den = some x) : IsRounded (x.units * den) num := by
  have hunits : x.units * den =
      roundQuotient num (stepOf num den) * stepOf num den := by
    rw [(eq_of_ofUnits? hden h).2, stepOf]
    ring
  obtain ⟨hupper, hlower⟩ := roundQuotient_near num (stepOf_pos num hden)
  have hstep := stepOf_mul_le hden hlarge
  rw [← hunits] at hupper hlower
  constructor
  · omega
  · omega

/-- The largest number, as a multiple of the smallest. -/
def largest : Nat := (2 ^ 53 - 1) * 2 ^ 2045

theorem exists_ofParts?_eq_some {significand scale : Nat} (hsignificand : significand < 2 ^ 53)
    (hscale : scale ≤ 2045) (hnormal : scale = 0 ∨ 2 ^ 52 ≤ significand) :
    ∃ x, ofParts? negative significand scale = some x := by
  rw [ofParts?, dif_pos ⟨hsignificand, hscale, hnormal⟩]
  exact ⟨_, rfl⟩

theorem pred_mul_two_pow_lt (scale : Nat) : (2 ^ 53 - 1) * 2 ^ scale < 2 ^ (53 + scale) := by
  rw [Nat.pow_add]
  exact Nat.mul_lt_mul_of_pos_right (by decide) (Nat.two_pow_pos scale)

theorem scaleOf_le (hle : num ≤ den * largest) : scaleOf num den ≤ 2045 := by
  have hquotient : num / den < 2 ^ (53 + 2045) := by
    exact (Nat.div_le_of_le_mul hle).trans_lt (pred_mul_two_pow_lt 2045)
  unfold scaleOf
  rcases Nat.eq_zero_or_pos (num / den) with hzero | hpos
  · rw [hzero]
    decide
  · have hlog := (Nat.log2_lt hpos.ne').2 hquotient
    clear hquotient
    omega

/-- A quotient with a scale is not too small. -/
theorem mul_two_pow_le (hden : 0 < den) (hscale : scaleOf num den ≠ 0) : den * 2 ^ 52 ≤ num := by
  have hlog : 52 ≤ (num / den).log2 := by
    unfold scaleOf at hscale
    omega
  have hne : num / den ≠ 0 := by
    intro hzero
    rw [hzero] at hlog
    exact absurd hlog (by decide)
  rw [Nat.le_log2 hne, Nat.le_div_iff_mul_le hden] at hlog
  omega

/-- At the largest scale, nothing is carried up to the largest number. -/
theorem roundQuotient_lt (hden : 0 < den) (hle : num ≤ den * largest)
    (hscale : scaleOf num den = 2045) : roundQuotient num (stepOf num den) < 2 ^ 53 := by
  have hstep := stepOf_pos num hden
  have hnum : num ≤ (2 ^ 53 - 1) * stepOf num den := by
    calc
      num ≤ den * largest := hle
      _ = (2 ^ 53 - 1) * stepOf num den := by
        rw [stepOf, hscale, largest]
        generalize 2045 = scale
        ring
  obtain ⟨-, hlower⟩ := roundQuotient_near num hstep
  apply Nat.lt_of_mul_lt_mul_right (a := stepOf num den)
  omega

/-- Up to the largest number, rounding succeeds. -/
theorem exists_ofUnits?_eq_some (hden : 0 < den) (hle : num ≤ den * largest) :
    ∃ x, ofUnits? negative num den = some x := by
  have hscale := scaleOf_le hle
  rw [ofUnits?_eq]
  split
  · rename_i hsignificand
    apply exists_ofParts?_eq_some hsignificand hscale
    rw [or_iff_not_imp_left]
    intro hne
    have hstep := stepOf_mul_le hden (mul_two_pow_le hden hne)
    have hdiv : 2 ^ 52 ≤ num / stepOf num den :=
      (Nat.le_div_iff_mul_le (stepOf_pos num hden)).2 (by omega)
    exact hdiv.trans (div_le_roundQuotient num _)
  · rename_i hcarry
    have hne : scaleOf num den ≠ 2045 := fun h ↦ hcarry (roundQuotient_lt hden hle h)
    exact exists_ofParts?_eq_some (by decide) (by omega) (.inr le_rfl)

/-! ## Natural numbers and products -/

-- Irreducible, as tactics that unfold the number start to compute the power.
/-- One, as a multiple of the smallest number. -/
@[irreducible]
def one : Nat := Nat.pow 2 1074

theorem two_pow_le_one {k : Nat} (h : k ≤ 1074) : 2 ^ k ≤ one := by
  unfold one
  generalize 1074 = n at h ⊢
  exact Nat.pow_le_pow_right (by decide) h

theorem one_pos : 0 < one := Nat.lt_of_lt_of_le Nat.one_pos (two_pow_le_one (Nat.zero_le _))

theorem ofNat?_eq (value : Nat) : ofNat? value = ofUnits? false (value * one) 1 := by
  unfold ofNat? one
  generalize 1074 = n
  rfl

theorem mul?_eq (x y : Binary64) :
    x.mul? y = ofUnits? (x.negative != y.negative) (x.units * y.units) one := by
  unfold mul? one
  generalize 1074 = n
  rfl

theorem isRounded_of_ofNat? {value : Nat} (hpos : 0 < value) (h : ofNat? value = some x) :
    IsRounded x.units (value * one) := by
  have hlarge : 1 * 2 ^ 52 ≤ value * one := Nat.mul_le_mul hpos (two_pow_le_one (by decide))
  rw [ofNat?_eq] at h
  have hrounded := isRounded_of_ofUnits? Nat.one_pos hlarge h
  rwa [Nat.mul_one] at hrounded

theorem isRounded_of_mul? (hlarge : one * 2 ^ 52 ≤ x.units * y.units) (h : x.mul? y = some z) :
    IsRounded (z.units * one) (x.units * y.units) := by
  rw [mul?_eq] at h
  exact isRounded_of_ofUnits? one_pos hlarge h

/-- What a natural number is rounded to is not too small. -/
theorem IsRounded.one_le {units value : Nat} (h : IsRounded units (value * one))
    (hpos : 0 < value) : one ≤ 2 * units := by
  have hlower := h.lower
  have hvalue : one ≤ value * one := Nat.le_mul_of_pos_left _ hpos
  omega

/-- So the product of two such numbers is not too small. -/
theorem IsRounded.one_mul_le {units others value other : Nat} (h : IsRounded units (value * one))
    (hother : IsRounded others (other * one)) (hpos : 0 < value) (hpos' : 0 < other) :
    one * 2 ^ 52 ≤ units * others := by
  have hone : 2 ^ 54 ≤ one := two_pow_le_one (by decide)
  have hfirst := h.one_le hpos
  have hsecond := hother.one_le hpos'
  have hproduct : 4 * (one * 2 ^ 52) ≤ 4 * (units * others) := by
    calc
      4 * (one * 2 ^ 52) = one * 2 ^ 54 := by ring
      _ ≤ one * one := Nat.mul_le_mul_left _ hone
      _ ≤ 2 * units * (2 * others) := Nat.mul_le_mul hfirst hsecond
      _ = 4 * (units * others) := by ring
  exact Nat.le_of_mul_le_mul_left hproduct (by decide)

/-! ## Below `10 ^ 308` -/

/-- Rounding twice stays below the largest number. -/
theorem rounded_ten_pow_le :
    (2 ^ 53 + 1) ^ 2 * (10 ^ 308 * one) ≤ (2 ^ 53) ^ 2 * largest := by
  decide +kernel

theorem exists_ofNat?_eq_some {value : Nat} (h : value ≤ 10 ^ 308) :
    ∃ x, ofNat? value = some x := by
  have hten : 10 ^ 308 * one ≤ 1 * largest := by decide +kernel
  rw [ofNat?_eq]
  exact exists_ofUnits?_eq_some Nat.one_pos ((Nat.mul_le_mul_right one h).trans hten)

/-- The product of two rounded numbers is not too large, if that of the numbers is not. -/
theorem exists_mul?_eq_some {first second : Nat}
    (hfirst : IsRounded x.units (first * one)) (hsecond : IsRounded y.units (second * one))
    (hle : first * second ≤ 10 ^ 308) : ∃ z, x.mul? y = some z := by
  rw [mul?_eq]
  apply exists_ofUnits?_eq_some one_pos
  have hpower : (0 : Nat) < (2 ^ 53) ^ 2 := by decide
  apply Nat.le_of_mul_le_mul_left _ hpower
  calc
    (2 ^ 53) ^ 2 * (x.units * y.units) = 2 ^ 53 * x.units * (2 ^ 53 * y.units) := by ring
    _ ≤ (2 ^ 53 + 1) * (first * one) * ((2 ^ 53 + 1) * (second * one)) :=
      Nat.mul_le_mul hfirst.upper hsecond.upper
    _ = one * ((2 ^ 53 + 1) ^ 2 * (first * second * one)) := by ring
    _ ≤ one * ((2 ^ 53 + 1) ^ 2 * (10 ^ 308 * one)) :=
      Nat.mul_le_mul_left _ (Nat.mul_le_mul_left _ (Nat.mul_le_mul_right _ hle))
    _ ≤ one * ((2 ^ 53) ^ 2 * largest) := Nat.mul_le_mul_left _ rounded_ten_pow_le
    _ = (2 ^ 53) ^ 2 * (one * largest) := Nat.mul_left_comm _ _ _

end IndexedSearch.Binary64

namespace IndexedSearch.Scaled

open Binary64 (IsRounded one)

variable {x z : Binary64} {negative : Bool} {word exponent : Nat}

/-- A number is multiplied by a power of ten only if the power is not too large. -/
theorem exists_of_multiply? (hx : x.units ≠ 0) (h : multiply? x exponent = some z) :
    ∃ power, Binary64.ofNat? (10 ^ exponent) = some power ∧ x.mul? power = some z := by
  rw [multiply?] at h
  split at h
  · obtain ⟨power, hpower, hproduct⟩ := Option.bind_eq_some_iff.1 h
    exact ⟨power, hpower, hproduct⟩
  · split at h
    · rename_i hzero
      exact absurd (by rw [Binary64.units, hzero, Nat.zero_mul]) hx
    · cases h

/-- A word with a power of ten is rounded three times: the word, the power and their product. -/
theorem exists_of_round? (hpos : 0 < word) (h : round? negative ⟨word, exponent⟩ = some x) :
    x.negative = negative ∧ ∃ first second : Binary64,
      IsRounded first.units (word * one) ∧ IsRounded second.units (10 ^ exponent * one) ∧
        IsRounded (x.units * one) (first.units * second.units) := by
  obtain ⟨first, hfirst, h⟩ := Option.bind_eq_some_iff.1 h
  obtain ⟨product, hproduct, h⟩ := Option.bind_eq_some_iff.1 h
  have hword := Binary64.isRounded_of_ofNat? hpos hfirst
  have hne : first.units ≠ 0 := by
    have hone := hword.one_le hpos
    have hpos := Binary64.one_pos
    omega
  obtain ⟨second, hsecond, hproduct⟩ := exists_of_multiply? hne hproduct
  have htens : 0 < 10 ^ exponent := Nat.pow_pos (by decide)
  have hpower := Binary64.isRounded_of_ofNat? htens hsecond
  have hrounded := Binary64.isRounded_of_mul? (hword.one_mul_le hpower hpos htens) hproduct
  cases h
  exact ⟨rfl, first, second, hword, hpower, hrounded⟩

/-- Below `10 ^ 308`, the product is not too large. -/
theorem exists_round?_eq_some (negative : Bool) (hpos : 0 < word)
    (hlt : word * 10 ^ exponent < 10 ^ 308) :
    ∃ x, round? negative ⟨word, exponent⟩ = some x := by
  have htens : 0 < 10 ^ exponent := Nat.pow_pos (by decide)
  have hword : word ≤ 10 ^ 308 := (Nat.le_mul_of_pos_right _ htens).trans hlt.le
  have hpower : 10 ^ exponent < 10 ^ 308 := (Nat.le_mul_of_pos_left _ hpos).trans_lt hlt
  have hexponent : exponent ≤ maxPower := ((Nat.pow_lt_pow_iff_right (by decide)).1 hpower).le
  obtain ⟨first, hfirst⟩ := Binary64.exists_ofNat?_eq_some hword
  obtain ⟨second, hsecond⟩ := Binary64.exists_ofNat?_eq_some hpower.le
  obtain ⟨product, hproduct⟩ :=
    Binary64.exists_mul?_eq_some (Binary64.isRounded_of_ofNat? hpos hfirst)
      (Binary64.isRounded_of_ofNat? htens hsecond) hlt.le
  have hmultiplied : multiply? first exponent = some product := by
    rw [multiply?, if_pos hexponent]
    exact bind_of_eq_some hsecond hproduct
  exact ⟨_, bind_of_eq_some hfirst (bind_of_eq_some hmultiplied rfl)⟩

end IndexedSearch.Scaled
