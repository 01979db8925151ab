import Mathlib.Algebra.Order.Field.Power
import Mathlib.Tactic.GCongr
import Mathlib.Tactic.Positivity
import Reckoner.Decimal.Numeral
import Reckoner.Proofs.Nearest

/-!
# The value of a decimal

A decimal is a whole number times a power of ten. It denotes the double nearest to this rational: the
powers of ten that are never computed are so large that every double is too small, or so small that
zero is the nearest one. Only the rational counts, so a zero at the end of the whole number can be
moved into the power.
-/

namespace Reckoner

/-- How many steps of 2⁻¹⁰⁷⁴ make one. -/
def stepsPerOne : ℚ :=
  2 ^ (1074 : Nat)

theorem stepsPerOne_pos : 0 < stepsPerOne :=
  pow_pos (by norm_num) 1074

/-- A power of two times the steps of one is a power of two. -/
theorem two_pow_mul_stepsPerOne (bits : Nat) :
    2 ^ bits * stepsPerOne = ((2 ^ (bits + 1074) : Nat) : ℚ) := by
  rw [stepsPerOne, ← pow_add]
  exact (Nat.cast_pow 2 (bits + 1074)).symm

/-- A whole number times a power of ten, counted in steps of 2⁻¹⁰⁷⁴. -/
def decimalSteps (significand : Nat) (exponent : Int) : ℚ :=
  significand * 10 ^ exponent * stepsPerOne

/-- Nothing is no step. -/
theorem decimalSteps_zero (exponent : Int) : decimalSteps 0 exponent = 0 := by
  simp [decimalSteps]

/-- A larger whole number is more steps at the same power of ten. -/
theorem decimalSteps_mono {first second : Nat} (h : first ≤ second) (exponent : Int) :
    decimalSteps first exponent ≤ decimalSteps second exponent := by
  have hscale := stepsPerOne_pos
  unfold decimalSteps
  gcongr

/-- A larger power of ten is more steps of the same whole number. -/
theorem decimalSteps_mono_exponent (significand : Nat) {first second : Int} (h : first ≤ second) :
    decimalSteps significand first ≤ decimalSteps significand second := by
  unfold decimalSteps
  apply mul_le_mul_of_nonneg_right _ stepsPerOne_pos.le
  apply mul_le_mul_of_nonneg_left _ (Nat.cast_nonneg significand)
  exact zpow_le_zpow_right₀ (by norm_num) h

/-- Zeros at the end of the whole number are the same as a larger power of ten. -/
theorem decimalSteps_mul_pow (significand zeros : Nat) (exponent : Int) :
    decimalSteps (significand * 10 ^ zeros) exponent =
      decimalSteps significand (exponent + zeros) := by
  unfold decimalSteps
  rw [zpow_add₀ (by norm_num), zpow_natCast]
  push_cast
  ring

/-- The quotient that a decimal is rounded from is its number of steps. -/
theorem scaled_div_eq_decimalSteps (significand : Nat) (exponent : Int) :
    (((significand * Nat.pow 10 exponent.toNat) <<< 1074 : Nat) : ℚ) /
      (Nat.pow 10 (-exponent).toNat : Nat) = decimalSteps significand exponent := by
  have hpower : (10 : ℚ) ^ exponent = 10 ^ exponent.toNat / 10 ^ (-exponent).toNat := by
    rw [← zpow_natCast, ← zpow_natCast, ← zpow_sub₀ (by norm_num)]
    congr 1
    omega
  have hshift (n bits : Nat) : ((n <<< bits : Nat) : ℚ) = n * 2 ^ bits := by
    rw [Nat.shiftLeft_eq, Nat.cast_mul, Nat.cast_pow, Nat.cast_ofNat]
  unfold decimalSteps stepsPerOne
  rw [hpower, hshift, Nat.pow_eq, Nat.pow_eq]
  generalize (2 : ℚ) ^ 1074 = scale
  push_cast
  ring

/-- From 10³¹⁰ on every double is too small. -/
theorem le_log2_nearestUnits {significand : Nat} {exponent : Int} (hpos : 0 < significand)
    (h : 310 ≤ exponent) : 2098 ≤ (nearestUnits (decimalSteps significand exponent)).log2 := by
  have hscale := stepsPerOne_pos
  have hlarge : (2 : ℚ) ^ 1024 ≤ 10 ^ 310 := by
    exact_mod_cast (by decide +kernel : 2 ^ 1024 ≤ 10 ^ 310)
  have hsteps : ((2 ^ (1024 + 1074) : Nat) : ℚ) ≤ decimalSteps significand exponent := by
    calc ((2 ^ (1024 + 1074) : Nat) : ℚ) = 2 ^ 1024 * stepsPerOne := (two_pow_mul_stepsPerOne 1024).symm
      _ ≤ 10 ^ 310 * stepsPerOne := mul_le_mul_of_nonneg_right hlarge hscale.le
      _ = decimalSteps 1 310 := by rw [decimalSteps, Nat.cast_one, one_mul, zpow_ofNat]
      _ ≤ decimalSteps significand 310 := decimalSteps_mono hpos 310
      _ ≤ decimalSteps significand exponent := decimalSteps_mono_exponent significand h
  have hle := nearestUnits_mono hsteps
  rw [nearestUnits_two_pow] at hle
  have hne : nearestUnits (decimalSteps significand exponent) ≠ 0 :=
    Nat.ne_of_gt (Nat.lt_of_lt_of_le (Nat.two_pow_pos _) hle)
  have hlog := (Nat.le_log2 hne).mpr hle
  omega

/-- A whole number below 8ⁿ · 2⁻¹⁰⁸⁰ divided by 10ⁿ is less than half a step. -/
theorem nearestUnits_decimalSteps_eq_zero {significand : Nat} {exponent : Int} (hneg : exponent < 0)
    (h : significand.log2 + 1081 ≤ 3 * exponent.natAbs) :
    nearestUnits (decimalSteps significand exponent) = 0 := by
  apply nearestUnits_eq_zero
  have hbound : 2 * significand * 2 ^ 1074 < 10 ^ exponent.natAbs := by
    calc 2 * significand * 2 ^ 1074 < 2 * 2 ^ (significand.log2 + 1) * 2 ^ 1074 := by
          gcongr
          exact Nat.lt_log2_self
      _ = 2 ^ (significand.log2 + 1076) := by
          rw [← Nat.pow_succ', ← Nat.pow_add]
      _ ≤ 2 ^ (3 * exponent.natAbs) := Nat.pow_le_pow_right (by omega) (by omega)
      _ = 8 ^ exponent.natAbs := Nat.pow_mul 2 3 _
      _ ≤ 10 ^ exponent.natAbs := Nat.pow_le_pow_left (by omega) _
  have hcast : (2 * significand * stepsPerOne : ℚ) < 10 ^ exponent.natAbs := by
    rw [stepsPerOne]
    exact_mod_cast hbound
  have hpower : (10 : ℚ) ^ exponent = (10 ^ exponent.natAbs)⁻¹ := by
    rw [← zpow_natCast, ← zpow_neg]
    congr 1
    omega
  have hpos : (0 : ℚ) < 10 ^ exponent.natAbs := by positivity
  calc 2 * decimalSteps significand exponent
      = 2 * significand * stepsPerOne * (10 ^ exponent.natAbs)⁻¹ := by
        rw [decimalSteps, hpower]
        ring
    _ < 10 ^ exponent.natAbs * (10 ^ exponent.natAbs)⁻¹ :=
        mul_lt_mul_of_pos_right hcast (inv_pos.mpr hpos)
    _ = 1 := mul_inv_cancel₀ hpos.ne'

/-- A quotient is rounded to a finite double exactly if that is of its sign and size. -/
theorem round_eq_finite_iff {negative negative' : Bool} {num den : Nat} {m : Magnitude} :
    Binary64.round negative num den = .finite negative' m ↔
      negative = negative' ∧ roundUnits num den = m.units := by
  unfold Binary64.round
  split
  · rw [Binary64.finite.injEq, Magnitude.ext_iff]
  · next hlarge =>
    refine iff_of_false (by simp) fun h => hlarge ?_
    rw [h.2]
    exact m.bounded

/-- A decimal denotes a finite double exactly if that is of its sign and its number of steps is nearest
to the size of the double. -/
theorem ofDecimal_eq_finite_iff {negative negative' : Bool} {significand : Nat} {exponent : Int}
    {m : Magnitude} :
    Binary64.ofDecimal negative significand exponent = .finite negative' m ↔
      negative = negative' ∧ nearestUnits (decimalSteps significand exponent) = m.units := by
  have hzero (hunits : nearestUnits (decimalSteps significand exponent) = 0) :
      Binary64.zero negative = .finite negative' m ↔
        negative = negative' ∧ nearestUnits (decimalSteps significand exponent) = m.units := by
    rw [hunits, Binary64.zero, Binary64.finite.injEq, Magnitude.ext_iff]
    rfl
  unfold Binary64.ofDecimal
  split
  · next hsignificand =>
    apply hzero
    rw [hsignificand, decimalSteps_zero]
    exact nearestUnits_eq_zero (by norm_num)
  · next hsignificand =>
    split
    · next hexponent =>
      refine iff_of_false (by simp) fun h => ?_
      have hlog := le_log2_nearestUnits (Nat.pos_of_ne_zero hsignificand) hexponent
      rw [h.2] at hlog
      exact absurd m.bounded (Nat.not_lt_of_le hlog)
    · split
      · next hsmall =>
        apply hzero
        exact nearestUnits_decimalSteps_eq_zero hsmall.1 hsmall.2
      · have hpos : 0 < Nat.pow 10 (-exponent).toNat := Nat.pow_pos (by omega)
        dsimp only
        rw [round_eq_finite_iff, roundUnits_eq_nearestUnits hpos, scaled_div_eq_decimalSteps]

end Reckoner
