import Mathlib.Algebra.Order.Field.Rat
import Mathlib.Algebra.Order.Field.Power
import Mathlib.Data.Int.Order.Basic
import Mathlib.Data.Nat.Log
import Mathlib.Tactic.FieldSimp
import Mathlib.Tactic.Linarith
import Mathlib.Tactic.NormNum
import Mathlib.Tactic.Positivity
import Mathlib.Tactic.Ring
import StepScript.Number.Basic

/-!
# Rounding — integers as double-precision numbers

An integer with more than fifty-three significant bits has no double-precision number of its own: it
becomes the nearest multiple of a power of two, and of two that are equally near the one with the even
coefficient.

* `Binary64.value` is the exact value of a finite number, and `Binary64.eqv_iff` says that finite
  numbers are equal when their values are;
* `RoundsTo` describes rounding without computing it, and `RoundsTo.unique` says that it leaves no
  choice;
* `Binary64.ofInt_rounds`: the number that is made from an integer is the one it rounds to;
* `Binary64.eqv_ofInt_iff`: two integers become equal numbers if and only if they round alike.
-/

namespace StepScript

/-- The power that the program computes is the one of the library. -/
theorem twoPow_eq_pow (k : Nat) : twoPow k = 2 ^ k := by
  induction k with
  | zero => rfl
  | succ k ih => rw [twoPow_succ, ih, Nat.pow_succ, Nat.mul_comm]

/-! ## Rounding described -/

/-- The distance between the numbers of fifty-three significant bits around an integer, or one where
these are not all integers. -/
def gap (n : Int) : Int :=
  2 ^ (n.natAbs.log2 - 52)

/-- An integer is rounded to another one: to the nearest multiple of the gap, and of two that are
equally near to the one that is an even multiple. -/
structure RoundsTo (n k : Int) : Prop where
  multiple : gap n ∣ k
  near : 2 * |n - k| ≤ gap n
  tie : 2 * |n - k| = gap n → 2 * gap n ∣ k

/-- Two integers are rounded to the same one. -/
def RoundAlike (m n : Int) : Prop :=
  ∃ k, RoundsTo m k ∧ RoundsTo n k

theorem gap_pos (n : Int) : 0 < gap n := by
  unfold gap
  positivity

/-- Two roundings are neighbouring multiples at most, and both even if they are not the same. -/
theorem RoundsTo.unique {n k k' : Int} (h : RoundsTo n k) (h' : RoundsTo n k') : k = k' := by
  have hgap := gap_pos n
  obtain ⟨q, hq⟩ := h.multiple
  obtain ⟨q', hq'⟩ := h'.multiple
  have hnear := h.near
  have hnear' := h'.near
  have htriangle : |k - k'| ≤ |n - k| + |n - k'| := by
    have := abs_sub_le k n k'
    rwa [abs_sub_comm k n] at this
  have hdistance : |k - k'| = gap n * |q - q'| := by
    rw [hq, hq', ← Int.mul_sub, abs_mul, abs_of_pos hgap]
  -- half a gap to either side leaves room for two neighbours
  have hclose : |q - q'| ≤ 1 := by
    have : gap n * |q - q'| ≤ gap n * 1 := by omega
    exact le_of_mul_le_mul_left this hgap
  rcases Int.lt_or_eq_of_le hclose with hlt | heq
  · have : q = q' := by
      have := abs_nonneg (q - q')
      exact sub_eq_zero.1 (abs_eq_zero.1 (by omega))
    rw [hq, hq', this]
  · -- both are as far away as they may be, so both are even multiples
    rw [heq] at hdistance
    obtain ⟨r, hr⟩ := h.tie (by omega)
    obtain ⟨r', hr'⟩ := h'.tie (by omega)
    have heven : ∀ {a b c : Int}, a = gap n * b → a = 2 * gap n * c → b = 2 * c := by
      intro a b c hb hc
      apply Int.eq_of_mul_eq_mul_left hgap.ne'
      rw [← hb, hc]
      ring
    rw [heven hq hr, heven hq' hr', abs_eq (by norm_num)] at heq
    omega

/-- A multiple of its gap is rounded to itself. -/
theorem roundsTo_self {n : Int} (h : gap n ∣ n) : RoundsTo n n where
  multiple := h
  near := by
    have := gap_pos n
    simpa using this.le
  tie heq := by
    have := gap_pos n
    simp only [sub_self, abs_zero, mul_zero] at heq
    omega

/-- Integers of up to 53 bits have no gaps between them. -/
theorem gap_eq_one {n : Int} (h : |n| < 2 ^ 53) : gap n = 1 := by
  have hlog : n.natAbs.log2 < 53 := by
    by_cases hzero : n.natAbs = 0
    · rw [hzero]
      decide
    · rw [Nat.log2_lt hzero]
      have := Int.abs_eq_natAbs n
      omega
  have : n.natAbs.log2 - 52 = 0 := by omega
  rw [gap, this, pow_zero]

/-- Up to fifty-three bits every integer is a number of its own. -/
theorem roundsTo_self_of_le {n : Int} (h : |n| ≤ 2 ^ 53) : RoundsTo n n := by
  apply roundsTo_self
  rcases Int.lt_or_eq_of_le h with hlt | heq
  · rw [gap_eq_one hlt]
    exact one_dvd n
  · have hgap : gap n = 2 := by
      have : n.natAbs = 2 ^ 53 := by
        rw [Int.abs_eq_natAbs] at heq
        exact_mod_cast heq
      rw [gap, this, Nat.log2_two_pow]
      rfl
    rw [hgap]
    rcases abs_eq (by norm_num) |>.1 heq with rfl | rfl <;> decide

/-- Up to two to the power of 53, integers that round alike are the same. -/
theorem roundAlike_iff_eq {m n : Int} (hm : |m| ≤ 2 ^ 53) (hn : |n| ≤ 2 ^ 53) :
    RoundAlike m n ↔ m = n := by
  constructor
  · rintro ⟨k, hmk, hnk⟩
    calc
      m = k := (roundsTo_self_of_le hm).unique hmk
      _ = n := hnk.unique (roundsTo_self_of_le hn)
  · rintro rfl
    exact ⟨m, roundsTo_self_of_le hm, roundsTo_self_of_le hm⟩

/-! ## The value of a number -/

namespace Binary64

def sign (x : Binary64) : ℚ :=
  if x.isNegative then -1 else 1

/-- The exact value of a finite number. -/
def value (x : Binary64) : ℚ :=
  x.sign * (x.magnitude.1 * 2 ^ x.magnitude.2)

/-- At a smaller power than its own, a number has an integer coefficient. -/
theorem coefficientAt_mul {x : Binary64} {e : Int} (h : e ≤ x.magnitude.2) :
    (x.coefficientAt e : ℚ) * 2 ^ e = x.value := by
  have hpower : (2 : ℚ) ^ (x.magnitude.2 - e).toNat * 2 ^ e = 2 ^ x.magnitude.2 := by
    rw [← zpow_natCast, ← zpow_add₀ (by norm_num)]
    congr 1
    omega
  have hcoefficient : (x.coefficientAt e : ℚ) =
      x.sign * (x.magnitude.1 * 2 ^ (x.magnitude.2 - e).toNat) := by
    unfold coefficientAt sign
    dsimp only
    rw [twoPow_eq_pow]
    split
    · push_cast
      ring
    · push_cast
      ring
  rw [hcoefficient, value, ← hpower]
  ring

/-- Finite numbers are equal if their values are. -/
theorem eqv_iff {x y : Binary64} (hx : x.isFinite = true) (hy : y.isFinite = true) :
    x.eqv y = true ↔ x.value = y.value := by
  have hcompare : x.compare? y = some (compare
      (x.coefficientAt (min x.magnitude.2 y.magnitude.2))
      (y.coefficientAt (min x.magnitude.2 y.magnitude.2))) := by
    simp [compare?, isNaN, hx, hy]
  set e := min x.magnitude.2 y.magnitude.2
  have hpositive : (2 : ℚ) ^ e ≠ 0 := by positivity
  calc
    x.eqv y = true ↔ x.coefficientAt e = y.coefficientAt e := by
      rw [eqv, hcompare]
      simp
    _ ↔ (x.coefficientAt e : ℚ) * 2 ^ e = y.coefficientAt e * 2 ^ e := by
      rw [mul_left_inj' hpositive, Int.cast_inj]
    _ ↔ x.value = y.value := by
      rw [coefficientAt_mul (min_le_left _ _), coefficientAt_mul (min_le_right _ _)]

/-! ## The value of a word -/

variable {negative : Bool} {low q num den : Nat} {e : Int}

/-- The sign is the highest bit of the word. -/
theorem withSign_toNat (h : low < 2 ^ 63) :
    (withSign negative low).bits.toNat = if negative then low + 2 ^ 63 else low := by
  unfold withSign
  rw [UInt64.toNat_ofNat', twoPow_eq_pow]
  cases negative with
  | true => exact Nat.mod_eq_of_lt (by simp only [if_true]; omega)
  | false => exact Nat.mod_eq_of_lt (by simp only [Bool.false_eq_true, if_false]; omega)

theorem sign_withSign (h : low < 2 ^ 63) :
    (withSign negative low).sign = if negative then -1 else 1 := by
  have hnegative : (withSign negative low).isNegative = negative := by
    unfold isNegative
    rw [withSign_toNat h, twoPow_eq_pow]
    cases negative with
    | true => simp
    | false => simpa using h
  rw [sign, hnegative]

/-- The exponent is above the fifty-two bits of the fraction, whatever the sign is. -/
theorem exponentField_withSign (negative : Bool) (h : low < 2 ^ 63) :
    (withSign negative low).exponentField = low / 2 ^ 52 := by
  unfold exponentField
  rw [withSign_toNat h, twoPow_eq_pow, twoPow_eq_pow]
  split <;> omega

/-- The fraction is made of the fifty-two low bits, whatever the sign is. -/
theorem fraction_withSign (h : low < 2 ^ 63) :
    (withSign negative low).fraction = low % 2 ^ 52 := by
  unfold fraction
  rw [withSign_toNat h, twoPow_eq_pow]
  split <;> omega

/-- A word that is neither too small nor too large for a coefficient with a leading bit. -/
theorem withSign_value (negative : Bool) (hlower : 2 ^ 52 ≤ low) (hupper : low < 2047 * 2 ^ 52) :
    (withSign negative low).isFinite = true ∧
      (withSign negative low).value = (if negative then -1 else 1) *
        ((low % 2 ^ 52 + 2 ^ 52 : Nat) * 2 ^ ((low / 2 ^ 52 : Nat) - 1075 : Int)) := by
  have hlow : low < 2 ^ 63 := by omega
  have hexponent := exponentField_withSign negative hlow
  constructor
  · rw [isFinite, hexponent, bne_iff_ne]
    omega
  · have hmagnitude : (withSign negative low).magnitude =
        (low % 2 ^ 52 + 2 ^ 52, ((low / 2 ^ 52 : Nat) : Int) - 1075) := by
      have hnormal : low / 2 ^ 52 ≠ 0 := by omega
      rw [magnitude, hexponent, if_neg hnormal, fraction_withSign hlow, twoPow_eq_pow]
    rw [value, sign_withSign hlow, hmagnitude]

/-- The word of a coefficient of fifty-three bits, or of one that was rounded up beyond them. -/
theorem ofCoefficient_value (negative : Bool) (hlower : 2 ^ 52 ≤ q) (hupper : q ≤ 2 ^ 53)
    (he : -1074 ≤ e) (he' : e ≤ 970) :
    (ofCoefficient negative q e).isFinite = true ∧
      (ofCoefficient negative q e).value = (if negative then -1 else 1) * (q * 2 ^ e) := by
  obtain ⟨place, hplace⟩ : ∃ place : Nat, (e + 1074).toNat = place := ⟨_, rfl⟩
  obtain ⟨low, hlow⟩ : ∃ low, low = place * 2 ^ 52 + q := ⟨_, rfl⟩
  have hword : ofCoefficient negative q e = withSign negative low := by
    rw [ofCoefficient, twoPow_eq_pow, hplace, if_neg (by omega), hlow]
    exact if_neg (by omega)
  obtain ⟨hfinite, hvalue⟩ := withSign_value negative (show 2 ^ 52 ≤ low by omega) (by omega)
  rw [hword]
  refine ⟨hfinite, ?_⟩
  rw [hvalue]
  congr 1
  rcases Nat.lt_or_eq_of_le hupper with hlt | heq
  · have hcoefficient : low % 2 ^ 52 + 2 ^ 52 = q := by omega
    have hpower : ((low / 2 ^ 52 : Nat) - 1075 : Int) = e := by omega
    rw [hcoefficient, hpower]
  · -- the coefficient has carried into the exponent
    have hcoefficient : low % 2 ^ 52 + 2 ^ 52 = 2 ^ 52 := by omega
    have hpower : ((low / 2 ^ 52 : Nat) - 1075 : Int) = e + 1 := by omega
    rw [hcoefficient, hpower, heq, zpow_add₀ (by norm_num)]
    push_cast
    ring

/-! ## Rounding an integer -/

/-- Rounded division leaves a remainder of at most half the divisor, and of two results that do so it
takes the even one. -/
theorem divideToEven_spec (num : Nat) (hden : 0 < den) :
    2 * |(num : Int) - den * divideToEven num den| ≤ den ∧
      (2 * |(num : Int) - den * divideToEven num den| = den → 2 ∣ divideToEven num den) := by
  have hsplit := Nat.div_add_mod num den
  have hrest := Nat.mod_lt num hden
  obtain ⟨r, hr⟩ : ∃ r, num % den = r := ⟨_, rfl⟩
  obtain ⟨q, hq⟩ : ∃ q, num / den = q := ⟨_, rfl⟩
  rw [hr] at hsplit hrest
  rw [hq] at hsplit
  have hnum : (num : Int) = den * q + r := by exact_mod_cast hsplit.symm
  unfold divideToEven
  rw [hr, hq]
  dsimp only
  -- rounded up, the distance is what the remainder lacks, and rounded down it is the remainder
  split
  · rename_i hup
    have hdistance : |(num : Int) - den * ((q + 1 : Nat) : Int)| = den - r := by
      rw [hnum, abs_sub_comm, abs_eq_self.2]
      · push_cast
        ring
      · push_cast
        linarith
    simp only [Bool.or_eq_true, decide_eq_true_eq, Bool.and_eq_true, beq_iff_eq] at hup
    rw [hdistance]
    omega
  · rename_i hdown
    have hdistance : |(num : Int) - den * (q : Int)| = r := by
      rw [hnum, add_sub_cancel_left, Nat.abs_cast]
    simp only [Bool.or_eq_true, decide_eq_true_eq, Bool.and_eq_true, beq_iff_eq] at hdown
    rw [hdistance]
    omega

/-- The power that is taken for an integer leaves fifty-three bits before its point. -/
theorem ofRatio_one (hnum : num ≠ 0) :
    ofRatio negative num 1 = ofCoefficient negative
      (scaledQuotient num 1 ((num.log2 : Int) - 52)) ((num.log2 : Int) - 52) := by
  obtain ⟨size, hsize⟩ : ∃ size, num.log2 = size := ⟨_, rfl⟩
  have hlog : 2 ^ size ≤ num := hsize ▸ Nat.log2_self_le hnum
  have hguess : ((num.log2 : Int) - (Nat.log2 1 : Nat) - 52) = (size : Int) - 52 := by
    rw [hsize, show Nat.log2 1 = 0 by decide]
    omega
  -- one power less would leave fifty-four bits
  have hfits : ¬ (if (size : Int) - 52 - 1 ≥ 0
      then decide (num < 1 * twoPow (((size : Int) - 52 - 1).toNat + 53))
      else decide (num * twoPow (-((size : Int) - 52 - 1)).toNat < 1 * twoPow 53)) = true := by
    simp only [twoPow_eq_pow, one_mul]
    split
    · rw [decide_eq_true_iff, not_lt, show ((size : Int) - 52 - 1).toNat + 53 = size by omega]
      exact hlog
    · rw [decide_eq_true_iff, not_lt, show (-((size : Int) - 52 - 1)).toNat = 53 - size by omega]
      calc
        2 ^ 53 = 2 ^ size * 2 ^ (53 - size) := by
          rw [← Nat.pow_add]
          congr 1
          omega
        _ ≤ num * 2 ^ (53 - size) := Nat.mul_le_mul_right _ hlog
  unfold ofRatio
  rw [if_neg hnum]
  dsimp only
  rw [hguess, if_neg hfits, max_eq_left (by omega), hsize]

theorem divideToEven_one (num : Nat) : divideToEven num 1 = num := by
  have hnear := (divideToEven_spec num Nat.one_pos).1
  have habs : |(num : Int) - 1 * divideToEven num 1| = 0 := by
    have := abs_nonneg ((num : Int) - 1 * divideToEven num 1)
    push_cast at hnear
    omega
  rw [abs_eq_zero, one_mul, sub_eq_zero] at habs
  exact_mod_cast habs.symm

/-- Divided by its gap, a long integer leaves fifty-three bits, or one more if they are rounded up. -/
theorem divideToEven_bounds (hnum : num ≠ 0) (hsize : 52 ≤ num.log2) :
    2 ^ 52 ≤ divideToEven num (2 ^ (num.log2 - 52)) ∧
      divideToEven num (2 ^ (num.log2 - 52)) ≤ 2 ^ 53 := by
  have hpositive : 0 < 2 ^ (num.log2 - 52) := by positivity
  have hlower : 2 ^ 52 ≤ num / 2 ^ (num.log2 - 52) := by
    rw [Nat.le_div_iff_mul_le hpositive, ← Nat.pow_add, Nat.add_sub_cancel' hsize]
    exact Nat.log2_self_le hnum
  have hupper : num / 2 ^ (num.log2 - 52) < 2 ^ 53 := by
    rw [Nat.div_lt_iff_lt_mul hpositive, ← Nat.pow_add,
      show 53 + (num.log2 - 52) = num.log2 + 1 by omega]
    exact Nat.lt_log2_self
  unfold divideToEven
  dsimp only
  split <;> omega

/-- A natural number cut to fifty-three bits, with ties to even, is rounded as described. -/
theorem divideToEven_roundsTo (num : Nat) :
    RoundsTo num (2 ^ (num.log2 - 52) * divideToEven num (2 ^ (num.log2 - 52)) : Nat) := by
  have hgap : gap num = (2 ^ (num.log2 - 52) : Nat) := by
    rw [gap, Int.natAbs_natCast]
    push_cast
    rfl
  obtain ⟨hnear, htie⟩ := divideToEven_spec num (show 0 < 2 ^ (num.log2 - 52) by positivity)
  refine ⟨?_, ?_, ?_⟩
  · rw [hgap, Int.natCast_mul]
    exact dvd_mul_right _ _
  · rw [hgap, Int.natCast_mul]
    exact hnear
  · intro heq
    rw [hgap, Int.natCast_mul] at heq
    obtain ⟨r, hr⟩ := htie heq
    rw [hgap, hr]
    exact ⟨r, by push_cast; ring⟩

/-- A long integer is divided by its gap. -/
theorem scaledQuotient_long (hsize : 52 ≤ num.log2) :
    scaledQuotient num 1 ((num.log2 : Int) - 52) = divideToEven num (2 ^ (num.log2 - 52)) := by
  rw [scaledQuotient, if_pos (by omega), twoPow_eq_pow, one_mul]
  congr 2
  omega

/-- A short integer is shifted until it has fifty-three bits. -/
theorem scaledQuotient_short (hsize : num.log2 < 52) :
    scaledQuotient num 1 ((num.log2 : Int) - 52) = num * 2 ^ (52 - num.log2) := by
  rw [scaledQuotient, if_neg (by omega), twoPow_eq_pow, divideToEven_one]
  congr 2
  omega

/-- A short number is moved to exactly fifty-three bits. -/
theorem shifted_bounds (hnum : num ≠ 0) (hsize : num.log2 < 52) :
    2 ^ 52 ≤ num * 2 ^ (52 - num.log2) ∧ num * 2 ^ (52 - num.log2) ≤ 2 ^ 53 := by
  have hpower : 2 ^ num.log2 * 2 ^ (52 - num.log2) = 2 ^ 52 := by
    rw [← Nat.pow_add]
    congr 1
    omega
  have htwice : num ≤ 2 ^ num.log2 * 2 := by
    rw [← Nat.pow_succ]
    exact Nat.lt_log2_self.le
  constructor
  · rw [← hpower]
    exact Nat.mul_le_mul_right _ (Nat.log2_self_le hnum)
  · calc
      num * 2 ^ (52 - num.log2) ≤ 2 ^ num.log2 * 2 * 2 ^ (52 - num.log2) :=
        Nat.mul_le_mul_right _ htwice
      _ = 2 ^ 53 := by
        rw [Nat.mul_right_comm, hpower, ← Nat.pow_succ]

/-- The number that is made from a natural number, with a sign. -/
theorem ofRatio_rounds (negative : Bool) (hnum : num ≠ 0) (hsize : num.log2 < 1023) :
    ∃ k : Nat, RoundsTo num k ∧ (ofRatio negative num 1).isFinite = true ∧
      (ofRatio negative num 1).value = (if negative then -1 else 1) * k := by
  rw [ofRatio_one hnum]
  rcases Nat.lt_or_ge num.log2 52 with hshort | hlong
  · obtain ⟨hlower, hupper⟩ := shifted_bounds hnum hshort
    rw [scaledQuotient_short hshort]
    obtain ⟨hfinite, hvalue⟩ := ofCoefficient_value negative hlower hupper
      (show -1074 ≤ (num.log2 : Int) - 52 by omega) (by omega)
    have hfits : |(num : Int)| ≤ 2 ^ 53 := by
      rw [Nat.abs_cast]
      have : num < 2 ^ 53 := (Nat.log2_lt hnum).1 (by omega)
      omega
    refine ⟨num, roundsTo_self_of_le hfits, hfinite, ?_⟩
    rw [hvalue, show (num.log2 : Int) - 52 = -(52 - num.log2 : Nat) by omega, zpow_neg, zpow_natCast]
    push_cast
    field_simp
  · obtain ⟨hlower, hupper⟩ := divideToEven_bounds hnum hlong
    rw [scaledQuotient_long hlong]
    obtain ⟨hfinite, hvalue⟩ := ofCoefficient_value negative hlower hupper
      (show -1074 ≤ (num.log2 : Int) - 52 by omega) (by omega)
    refine ⟨_, divideToEven_roundsTo num, hfinite, ?_⟩
    rw [hvalue, show (num.log2 : Int) - 52 = (num.log2 - 52 : Nat) by omega, zpow_natCast]
    push_cast
    ring

end Binary64

/-- Rounding does not depend on the sign. -/
theorem RoundsTo.neg {n k : Int} (h : RoundsTo n k) : RoundsTo (-n) (-k) := by
  have hgap : gap (-n) = gap n := by
    rw [gap, gap, Int.natAbs_neg]
  have hdistance : |-n - -k| = |n - k| := by
    rw [neg_sub_neg, abs_sub_comm]
  refine ⟨?_, ?_, ?_⟩
  · rw [hgap, dvd_neg]
    exact h.multiple
  · rw [hgap, hdistance]
    exact h.near
  · rw [hgap, hdistance, dvd_neg]
    exact h.tie

/-- The number that is made from an integer has the value that it is rounded to. -/
theorem Binary64.ofInt_rounds {n : Int} (h : |n| < 2 ^ 1023) :
    ∃ k : Int, RoundsTo n k ∧ (ofInt n).isFinite = true ∧ (ofInt n).value = k := by
  by_cases hzero : n = 0
  · subst hzero
    exact ⟨0, roundsTo_self_of_le (by norm_num), by decide, by norm_num [value, ofInt]; decide⟩
  have hnum : n.natAbs ≠ 0 := Int.natAbs_ne_zero.2 hzero
  have hsize : n.natAbs.log2 < 1023 := by
    rw [Nat.log2_lt hnum]
    rw [Int.abs_eq_natAbs] at h
    exact_mod_cast h
  obtain ⟨k, hk, hfinite, hvalue⟩ := ofRatio_rounds (decide (n < 0)) hnum hsize
  rcases lt_or_gt_of_ne hzero with hneg | hpos
  · refine ⟨-k, ?_, hfinite, ?_⟩
    · rw [show n = -(n.natAbs : Int) by omega]
      exact hk.neg
    · rw [ofInt, hvalue]
      simp [hneg]
  · refine ⟨k, ?_, hfinite, ?_⟩
    · rw [show n = (n.natAbs : Int) by omega]
      exact hk
    · rw [ofInt, hvalue]
      simp [hpos.not_gt]

/-- Integers become equal numbers if and only if they are rounded to the same one. -/
theorem Binary64.eqv_ofInt_iff {m n : Int} (hm : |m| < 2 ^ 1023) (hn : |n| < 2 ^ 1023) :
    (ofInt m).eqv (ofInt n) = true ↔ RoundAlike m n := by
  obtain ⟨k, hk, hfinite, hvalue⟩ := ofInt_rounds hm
  obtain ⟨k', hk', hfinite', hvalue'⟩ := ofInt_rounds hn
  rw [eqv_iff hfinite hfinite', hvalue, hvalue', Int.cast_inj]
  constructor
  · rintro rfl
    exact ⟨k, hk, hk'⟩
  · rintro ⟨r, hmr, hnr⟩
    rw [hk.unique hmr, hk'.unique hnr]

end StepScript
