import Mathlib.Algebra.Order.Field.Rat
import Mathlib.Data.Rat.Cast.Order
import Mathlib.Tactic.Ring
import Mathlib.Tactic.Zify
import Reckoner.Binary64.Rounding

/-!
# The step count nearest to a rational

Rounding is followed on the rationals. Which fraction a rational is written as makes no difference,
a larger rational is never rounded to a smaller step count, and a step count that is precise enough
to be kept is rounded to itself. So the rationals that are rounded to one step count form an
interval around it.

The limit of the finite doubles plays no part here.
-/

namespace Reckoner

/-- A quotient is rounded to at most a whole number exactly if it is less than the number and a half,
or as much and the number is even. -/
theorem roundDiv_le_iff {num den k : Nat} (hden : 0 < den) :
    roundDiv num den ≤ k ↔
      2 * num < (2 * k + 1) * den ∨ 2 * num = (2 * k + 1) * den ∧ k % 2 = 0 := by
  have hnum := Nat.div_add_mod num den
  have hrest := Nat.mod_lt num hden
  unfold roundDiv
  dsimp only
  generalize num / den = low at hnum ⊢
  generalize num % den = rest at hnum hrest ⊢
  have hk : (2 * k + 1) * den = 2 * (den * k) + den := by ring
  rw [hk, ← hnum]
  rcases Nat.lt_trichotomy low k with hlow | rfl | hlow
  · have := Nat.mul_le_mul_left den hlow
    rw [Nat.mul_succ] at this
    split <;> omega
  · split <;> omega
  · have := Nat.mul_le_mul_left den hlow
    rw [Nat.mul_succ] at this
    split <;> omega

/-- Rounding a quotient to a whole number keeps the order. -/
theorem roundDiv_mono {num den num' den' : Nat} (hden : 0 < den) (hden' : 0 < den')
    (h : num * den' ≤ num' * den) : roundDiv num den ≤ roundDiv num' den' := by
  have hbound := (roundDiv_le_iff hden').mp (Nat.le_refl (roundDiv num' den'))
  generalize roundDiv num' den' = k at hbound ⊢
  apply (roundDiv_le_iff hden).mpr
  rcases hbound with hlt | ⟨heq, heven⟩
  · left
    apply Nat.lt_of_mul_lt_mul_right (a := den')
    calc 2 * num * den' = 2 * (num * den') := Nat.mul_assoc _ _ _
      _ ≤ 2 * (num' * den) := Nat.mul_le_mul_left 2 h
      _ = 2 * num' * den := (Nat.mul_assoc _ _ _).symm
      _ < (2 * k + 1) * den' * den := Nat.mul_lt_mul_of_pos_right hlt hden
      _ = (2 * k + 1) * den * den' := Nat.mul_right_comm _ _ _
  · have hle : 2 * num ≤ (2 * k + 1) * den := by
      apply Nat.le_of_mul_le_mul_right _ hden'
      calc 2 * num * den' = 2 * (num * den') := Nat.mul_assoc _ _ _
        _ ≤ 2 * (num' * den) := Nat.mul_le_mul_left 2 h
        _ = 2 * num' * den := (Nat.mul_assoc _ _ _).symm
        _ = (2 * k + 1) * den' * den := by rw [heq]
        _ = (2 * k + 1) * den * den' := Nat.mul_right_comm _ _ _
    exact (Nat.lt_or_eq_of_le hle).imp_right fun hsame => ⟨hsame, heven⟩

/-- A quotient is not rounded past a whole number above it. -/
theorem roundDiv_le_of_le {num den k : Nat} (hden : 0 < den) (h : num ≤ k * den) :
    roundDiv num den ≤ k := by
  apply (roundDiv_le_iff hden).mpr
  left
  have : (2 * k + 1) * den = 2 * (k * den) + den := by ring
  omega

/-- A quotient is not rounded past a whole number below it. -/
theorem le_roundDiv_of_le {num den k : Nat} (hden : 0 < den) (h : k * den ≤ num) :
    k ≤ roundDiv num den := by
  have hlow : k ≤ num / den := (Nat.le_div_iff_mul_le hden).mpr h
  unfold roundDiv
  dsimp only
  split <;> omega

/-- A quotient of steps is not rounded past a step count above it on its own grid. -/
theorem roundUnits_le_of_le {num den units : Nat} (hden : 0 < den)
    (hgrid : spacing (num / den) ∣ units) (h : num ≤ units * den) : roundUnits num den ≤ units := by
  obtain ⟨k, rfl⟩ := hgrid
  have hpos := spacing_pos (num / den)
  unfold roundUnits
  generalize spacing (num / den) = s at *
  rw [Nat.mul_comm s k] at h ⊢
  apply Nat.mul_le_mul_right
  apply roundDiv_le_of_le (Nat.mul_pos hden hpos)
  calc num ≤ k * s * den := h
    _ = k * (den * s) := by ring

/-- A quotient of steps is not rounded past a step count below it on its own grid. -/
theorem le_roundUnits_of_le {num den units : Nat} (hden : 0 < den)
    (hgrid : spacing (num / den) ∣ units) (h : units * den ≤ num) : units ≤ roundUnits num den := by
  obtain ⟨k, rfl⟩ := hgrid
  have hpos := spacing_pos (num / den)
  unfold roundUnits
  generalize spacing (num / den) = s at *
  rw [Nat.mul_comm s k] at h ⊢
  apply Nat.mul_le_mul_right
  apply le_roundDiv_of_le (Nat.mul_pos hden hpos)
  calc k * (den * s) = k * s * den := by ring
    _ ≤ num := h

/-- A step count that keeps no more bits than a double has is rounded to itself. -/
theorem roundUnits_of_dvd {units den : Nat} (hden : 0 < den) (h : spacing units ∣ units) :
    roundUnits (units * den) den = units := by
  have hquot : units * den / den = units := Nat.mul_div_cancel units hden
  apply Nat.le_antisymm
  · exact roundUnits_le_of_le hden (hquot.symm ▸ h) (Nat.le_refl _)
  · exact le_roundUnits_of_le hden (hquot.symm ▸ h) (Nat.le_refl _)

/-- The spacing at a size divides every power of two from the size's own on. -/
theorem spacing_dvd_two_pow {units bits : Nat} (h : units.log2 ≤ bits) :
    spacing units ∣ 2 ^ bits := by
  rw [spacing, Nat.one_shiftLeft]
  exact Nat.pow_dvd_pow 2 (by omega)

/-- A smaller quotient has a smaller whole part. -/
theorem div_le_div_of_mul_le_mul {num den num' den' : Nat} (hden : 0 < den) (hden' : 0 < den')
    (h : num * den' ≤ num' * den) : num / den ≤ num' / den' := by
  apply (Nat.le_div_iff_mul_le hden').mpr
  apply Nat.le_of_mul_le_mul_right _ hden
  calc num / den * den' * den = num / den * den * den' := Nat.mul_right_comm _ _ _
    _ ≤ num * den' := Nat.mul_le_mul_right den' (Nat.div_mul_le_self num den)
    _ ≤ num' * den := h

/-- Rounding a quotient of steps keeps the order. Between quotients of different lengths lies a power
of two, which neither is rounded past. -/
theorem roundUnits_mono {num den num' den' : Nat} (hden : 0 < den) (hden' : 0 < den')
    (h : num * den' ≤ num' * den) : roundUnits num den ≤ roundUnits num' den' := by
  have hquot := div_le_div_of_mul_le_mul hden hden' h
  have hlog := log2_mono hquot
  rcases Nat.lt_or_eq_of_le hlog with hlt | heq
  · have hbelow : num / den < 2 ^ (num' / den').log2 :=
      Nat.lt_of_lt_of_le Nat.lt_log2_self (Nat.pow_le_pow_right (by omega) hlt)
    have hne : num' / den' ≠ 0 := by
      intro hzero
      rw [hzero, Nat.log2_zero] at hlt
      omega
    have habove : 2 ^ (num' / den').log2 ≤ num' / den' := Nat.log2_self_le hne
    calc roundUnits num den ≤ 2 ^ (num' / den').log2 :=
          roundUnits_le_of_le hden (spacing_dvd_two_pow hlog)
            (Nat.le_of_lt ((Nat.div_lt_iff_lt_mul hden).mp hbelow))
      _ ≤ roundUnits num' den' :=
          le_roundUnits_of_le hden' (spacing_dvd_two_pow (Nat.le_refl _))
            ((Nat.le_div_iff_mul_le hden').mp habove)
  · have hspacing : spacing (num / den) = spacing (num' / den') := by rw [spacing, spacing, heq]
    have hpos := spacing_pos (num' / den')
    unfold roundUnits
    rw [hspacing]
    generalize spacing (num' / den') = s at hpos ⊢
    apply Nat.mul_le_mul_right
    apply roundDiv_mono (Nat.mul_pos hden hpos) (Nat.mul_pos hden' hpos)
    calc num * (den' * s) = num * den' * s := (Nat.mul_assoc _ _ _).symm
      _ ≤ num' * den * s := Nat.mul_le_mul_right s h
      _ = num' * (den * s) := Nat.mul_assoc _ _ _

/-- The step count of the double nearest to a rational, were the range unlimited. -/
def nearestUnits (q : ℚ) : Nat :=
  roundUnits q.num.toNat q.den

/-- A quotient is rounded as the rational that it is. -/
theorem roundUnits_eq_nearestUnits {num den : Nat} (hden : 0 < den) :
    roundUnits num den = nearestUnits ((num : ℚ) / den) := by
  have hpos : (0 : ℚ) < den := Nat.cast_pos.mpr hden
  have hq : 0 ≤ (num : ℚ) / den := div_nonneg (Nat.cast_nonneg num) hpos.le
  have hnum : (((num : ℚ) / den).num.toNat : ℤ) = ((num : ℚ) / den).num :=
    Int.toNat_of_nonneg (Rat.num_nonneg.mpr hq)
  have hcross : num * ((num : ℚ) / den).den = ((num : ℚ) / den).num.toNat * den := by
    have hratio : (((num : ℚ) / den).num : ℚ) / ((num : ℚ) / den).den = (num : ℚ) / den :=
      Rat.num_div_den _
    have hposq : (0 : ℚ) < ((num : ℚ) / den).den := Nat.cast_pos.mpr (Rat.den_pos _)
    rw [div_eq_div_iff hposq.ne' hpos.ne', ← hnum] at hratio
    exact_mod_cast hratio.symm
  apply Nat.le_antisymm
  · exact roundUnits_mono hden (Rat.den_pos _) hcross.le
  · exact roundUnits_mono (Rat.den_pos _) hden hcross.ge

/-- A larger rational is not rounded to a smaller step count. -/
theorem nearestUnits_mono : Monotone nearestUnits := by
  intro p q hpq
  apply roundUnits_mono (Rat.den_pos p) (Rat.den_pos q)
  have hcross : p.num * q.den ≤ q.num * p.den := (Rat.le_iff p q).mp hpq
  rcases Int.le_total 0 p.num with hnum | hnum
  · have hq : 0 ≤ q.num := Rat.num_nonneg.mpr (le_trans (Rat.num_nonneg.mp hnum) hpq)
    zify
    rwa [Int.toNat_of_nonneg hnum, Int.toNat_of_nonneg hq]
  · rw [Int.toNat_of_nonpos hnum, Nat.zero_mul]
    exact Nat.zero_le _

/-- A step count that keeps no more bits than a double has is nearest to itself. -/
theorem nearestUnits_natCast {units : Nat} (h : spacing units ∣ units) :
    nearestUnits units = units := by
  have hround := roundUnits_of_dvd Nat.one_pos h
  rwa [Nat.mul_one, roundUnits_eq_nearestUnits Nat.one_pos, Nat.cast_one, div_one] at hround

/-- A power of two is nearest to itself. -/
theorem nearestUnits_two_pow (bits : Nat) : nearestUnits ((2 ^ bits : Nat) : ℚ) = 2 ^ bits :=
  nearestUnits_natCast (spacing_dvd_two_pow (Nat.le_of_eq Nat.log2_two_pow))

/-- What lies between two rationals that are rounded alike is rounded as they are. -/
theorem nearestUnits_eq_of_between {p q r : ℚ} {units : Nat} (hpq : p ≤ q) (hqr : q ≤ r)
    (hp : nearestUnits p = units) (hr : nearestUnits r = units) : nearestUnits q = units := by
  apply Nat.le_antisymm
  · exact hr ▸ nearestUnits_mono hqr
  · exact hp ▸ nearestUnits_mono hpq

/-- Less than half a step is rounded to nothing. -/
theorem nearestUnits_eq_zero {q : ℚ} (h : 2 * q < 1) : nearestUnits q = 0 := by
  have hpos := Rat.den_pos q
  have hden : (0 : ℚ) < q.den := Nat.cast_pos.mpr hpos
  have hhalf : 2 * q.num < q.den := by
    have hscaled : 2 * q * q.den < 1 * q.den := mul_lt_mul_of_pos_right h hden
    rw [mul_assoc, Rat.mul_den_eq_num, one_mul] at hscaled
    exact_mod_cast hscaled
  have hzero : q.num.toNat / q.den = 0 := Nat.div_eq_of_lt (by omega)
  unfold nearestUnits roundUnits
  rw [hzero, spacing_eq_one (by decide), Nat.mul_one, Nat.mul_one]
  apply Nat.eq_zero_of_le_zero
  apply (roundDiv_le_iff hpos).mpr
  left
  omega

end Reckoner
