/-!
# Double-precision numbers

A finite double is a sign and a whole number of steps of size 2⁻¹⁰⁷⁴, the smallest positive
double. The step count keeps at most 53 significant bits and has at most 2098 bits in all, so every
finite double has exactly one representation, and equality of representations is equality
of bit patterns with all NaNs taken as one.
-/

namespace Reckoner

/-- The gap, in steps, between neighbouring doubles around a size of the given steps. -/
def spacing (units : Nat) : Nat :=
  1 <<< (units.log2 - 52)

/-- The size of a finite double, counted in steps of 2⁻¹⁰⁷⁴. -/
structure Magnitude where
  units : Nat
  precise : spacing units ∣ units
  bounded : units.log2 < 2098
deriving DecidableEq

/-- A double-precision number; the two zeros are different values and all NaNs are one. -/
inductive Binary64 where
  | nan
  | infinite (negative : Bool)
  | finite (negative : Bool) (magnitude : Magnitude)
deriving DecidableEq

/-- A smaller step count has no more bits. -/
theorem log2_mono {a b : Nat} (h : a ≤ b) : a.log2 ≤ b.log2 := by
  by_cases hzero : a = 0
  · subst hzero; exact Nat.zero_le _
  · rw [Nat.le_log2 (by omega)]
    exact Nat.le_trans (Nat.log2_self_le hzero) h

theorem spacing_pos (units : Nat) : 0 < spacing units := by
  rw [spacing, Nat.one_shiftLeft]
  exact Nat.two_pow_pos _

/-- A smaller size has a spacing that divides the one of a larger size. -/
theorem spacing_dvd_spacing {a b : Nat} (h : a ≤ b) : spacing a ∣ spacing b := by
  have := log2_mono h
  rw [spacing, spacing, Nat.one_shiftLeft, Nat.one_shiftLeft]
  exact Nat.pow_dvd_pow 2 (by omega)

/-- With at most 53 bits every step count is a double. -/
theorem spacing_eq_one {units : Nat} (h : units.log2 < 53) : spacing units = 1 := by
  have hlog : units.log2 - 52 = 0 := by omega
  rw [spacing, hlog, Nat.shiftLeft_zero]

/-- A number below a power of two has no more bits than its exponent. -/
theorem log2_lt_of_lt_shiftLeft {n bits : Nat} (hbits : 0 < bits) (h : n < 1 <<< bits) :
    n.log2 < bits := by
  by_cases hzero : n = 0
  · subst hzero; exact hbits
  · exact (Nat.log2_lt hzero).mpr (by rwa [Nat.one_shiftLeft] at h)

/-- Shifting a number below a power of two shifts the power. -/
theorem shiftLeft_lt {n bits : Nat} (h : n < 1 <<< bits) (shift : Nat) :
    n <<< shift < 1 <<< (bits + shift) := by
  rw [Nat.one_shiftLeft] at h
  rw [Nat.shiftLeft_eq, Nat.one_shiftLeft, Nat.pow_add]
  exact Nat.mul_lt_mul_of_pos_right h (Nat.two_pow_pos _)

/-- A size with at most 53 significant bits has no finer part than its own spacing. -/
theorem spacing_dvd_shiftLeft {significand : Nat} (h : significand ≤ 1 <<< 53) (shift : Nat) :
    spacing (significand <<< shift) ∣ significand <<< shift := by
  have hspacing {units : Nat} (hlog : units.log2 ≤ 52 + shift) : spacing units ∣ 1 <<< shift := by
    rw [spacing, Nat.one_shiftLeft, Nat.one_shiftLeft]
    exact Nat.pow_dvd_pow 2 (by omega)
  by_cases htop : significand = 1 <<< 53
  · rw [htop, ← Nat.shiftLeft_add, spacing, Nat.one_shiftLeft, Nat.one_shiftLeft, Nat.log2_two_pow]
    exact Nat.pow_dvd_pow 2 (by omega)
  · have hlog := log2_lt_of_lt_shiftLeft (by omega) (shiftLeft_lt (Nat.lt_of_le_of_ne h htop) shift)
    refine Nat.dvd_trans (hspacing (by omega)) ?_
    rw [Nat.one_shiftLeft, Nat.shiftLeft_eq]
    exact Nat.dvd_mul_left _ _

namespace Magnitude

/-- The size zero. -/
def zero : Magnitude where
  units := 0
  precise := Nat.dvd_zero _
  bounded := by decide

@[ext] theorem ext {a b : Magnitude} (h : a.units = b.units) : a = b := by
  cases a; cases b; cases h; rfl

end Magnitude

namespace Binary64

/-- The zero of the given sign. -/
def zero (negative : Bool) : Binary64 :=
  .finite negative .zero

/-- The number one. -/
def one : Binary64 :=
  .finite false ⟨1 <<< 1074, by decide +kernel, by decide +kernel⟩

/-- Change the sign. -/
def neg : Binary64 → Binary64
  | .nan => .nan
  | .infinite negative => .infinite (!negative)
  | .finite negative magnitude => .finite (!negative) magnitude

end Binary64

end Reckoner
