import Reckoner.Binary64.Basic

/-!
# Rounding to the nearest double

A nonnegative quotient of naturals, counted in steps of 2⁻¹⁰⁷⁴, is rounded to the nearest
multiple of the spacing at its own size, and a tie goes to the even multiple. A result that
reaches the limit of the finite doubles becomes an infinity. This is the only place at which any
operation rounds.
-/

namespace Reckoner

/-- The whole number nearest to a quotient; halfway between two, the even one. -/
def roundDiv (num den : Nat) : Nat :=
  let low := num / den
  let rest := num % den
  if 2 * rest < den ∨ 2 * rest = den ∧ low % 2 = 0 then low else low + 1

/-- The step count of the double nearest to a quotient, were the range unlimited. -/
def roundUnits (num den : Nat) : Nat :=
  roundDiv num (den * spacing (num / den)) * spacing (num / den)

theorem roundDiv_le (num den : Nat) : roundDiv num den ≤ num / den + 1 := by
  unfold roundDiv
  dsimp only
  split <;> omega

/-- A rounded quotient is a double, were the range unlimited. -/
theorem spacing_roundUnits_dvd (num den : Nat) :
    spacing (roundUnits num den) ∣ roundUnits num den := by
  have hquot : num / (den * spacing (num / den)) < 1 <<< 53 := by
    rw [← Nat.div_div_eq_div_mul]
    apply (Nat.div_lt_iff_lt_mul (spacing_pos _)).mpr
    rw [spacing, Nat.one_shiftLeft, Nat.one_shiftLeft, ← Nat.pow_add]
    exact Nat.lt_of_lt_of_le Nat.lt_log2_self (Nat.pow_le_pow_right (by omega) (by omega))
  have h := spacing_dvd_shiftLeft (Nat.le_trans (roundDiv_le num _) hquot) ((num / den).log2 - 52)
  rw [Nat.shiftLeft_eq, ← Nat.one_shiftLeft] at h
  exact h

/-- The double nearest to a quotient of steps, with the given sign. -/
def Binary64.round (negative : Bool) (num den : Nat) : Binary64 :=
  if h : (roundUnits num den).log2 < 2098 then
    .finite negative ⟨roundUnits num den, spacing_roundUnits_dvd num den, h⟩
  else
    .infinite negative

end Reckoner
