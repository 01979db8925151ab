import Reckoner.Binary64.Bits
import Reckoner.Binary64.Rounding

/-!
# Arithmetic on doubles

Sum, difference, product and quotient are the exact results rounded once. The remainder is exact:
a multiple of the divisor taken off the dividend toward zero never needs more bits than the
divisor has. Nothing traps; an operation without a meaning gives NaN.

The power is the one of the platform's mathematics library, so nothing but its bit pattern is
known about it here.
-/

namespace Reckoner

/-- The remainder of two sizes is a size. -/
theorem spacing_mod_dvd {a b : Nat} (ha : spacing a ∣ a) (hb : spacing b ∣ b) (hpos : 0 < b) :
    spacing (a % b) ∣ a % b := by
  by_cases hlt : a < b
  · rw [Nat.mod_eq_of_lt hlt]; exact ha
  have hba : spacing b ∣ a := Nat.dvd_trans (spacing_dvd_spacing (by omega)) ha
  have hbmod : spacing b ∣ a % b := (Nat.dvd_mod_iff hb).mpr hba
  exact Nat.dvd_trans (spacing_dvd_spacing (Nat.le_of_lt (Nat.mod_lt _ hpos))) hbmod

namespace Magnitude

/-- The remainder of one size by another that is not zero. -/
def mod (a b : Magnitude) (hpos : 0 < b.units) : Magnitude where
  units := a.units % b.units
  precise := spacing_mod_dvd a.precise b.precise hpos
  bounded := Nat.lt_of_le_of_lt (log2_mono (Nat.le_of_lt (Nat.mod_lt _ hpos))) b.bounded

end Magnitude

namespace Binary64

/-- The steps of a size with its sign. -/
def signedUnits (negative : Bool) (magnitude : Magnitude) : Int :=
  if negative then -magnitude.units else magnitude.units

/-- Sum. A sum that cancels is the positive zero unless both operands are negative. -/
def add : Binary64 → Binary64 → Binary64
  | .finite s a, .finite t b =>
    let sum := signedUnits s a + signedUnits t b
    if sum = 0 then zero (s && t) else round (decide (sum < 0)) sum.natAbs 1
  | .finite _ _, .infinite t => .infinite t
  | .infinite s, .finite _ _ => .infinite s
  | .infinite s, .infinite t => if s = t then .infinite s else .nan
  | .nan, _ => .nan
  | _, .nan => .nan

/-- Difference. -/
def sub (x y : Binary64) : Binary64 :=
  add x y.neg

/-- Product. -/
def mul : Binary64 → Binary64 → Binary64
  | .finite s a, .finite t b => round (s != t) (a.units * b.units) (1 <<< 1074)
  | .finite s a, .infinite t => if a.units = 0 then .nan else .infinite (s != t)
  | .infinite s, .finite t b => if b.units = 0 then .nan else .infinite (s != t)
  | .infinite s, .infinite t => .infinite (s != t)
  | .nan, _ => .nan
  | _, .nan => .nan

/-- Quotient. Zero divides a nonzero number into an infinity. -/
def div : Binary64 → Binary64 → Binary64
  | .finite s a, .finite t b =>
    if b.units = 0 then
      if a.units = 0 then .nan else .infinite (s != t)
    else
      round (s != t) (a.units <<< 1074) b.units
  | .finite s _, .infinite t => zero (s != t)
  | .infinite s, .finite t _ => .infinite (s != t)
  | .infinite _, .infinite _ => .nan
  | .nan, _ => .nan
  | _, .nan => .nan

/-- Remainder of the division that rounds toward zero; it has the sign of the dividend. -/
def mod : Binary64 → Binary64 → Binary64
  | .finite s a, .finite _ b =>
    if h : 0 < b.units then .finite s (a.mod b h) else .nan
  | .finite s a, .infinite _ => .finite s a
  | .infinite _, _ => .nan
  | .nan, _ => .nan
  | _, .nan => .nan

/-- Power, as the platform computes it. -/
def pow (x y : Binary64) : Binary64 :=
  ofBits (Float.pow (.ofBits x.toBits) (.ofBits y.toBits)).toBits

/-- Product of a list from left to right; of no numbers it is one. -/
def product : List Binary64 → Binary64
  | [] => one
  | first :: rest => rest.foldl mul first

end Binary64

end Reckoner
