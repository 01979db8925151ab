import Reckoner.Binary64.Basic

/-!
# Bit patterns

The 64-bit interchange format: a sign bit, eleven exponent bits and fifty-two fraction bits. For
a finite double the last 63 bits, read as a number, are the position of its size among all sizes
in ascending order, which is why one formula serves subnormal and normal numbers. The pattern of a
double denotes that double again, so doubles differ exactly if their patterns do.
-/

namespace Reckoner

/-- The number of fractions, written out. -/
theorem fractions_eq : 1 <<< 52 = 4503599627370496 := by
  decide

namespace Magnitude

/-- The exponent and fraction bits of a size, as one number. -/
def rank (m : Magnitude) : Nat :=
  (m.units.log2 - 52) <<< 52 + m.units / spacing m.units

/-- Below 2⁵² the rank of a size is its step count, so its exponent field is zero. -/
theorem rank_of_lt {m : Magnitude} (h : m.units < 1 <<< 52) : m.rank = m.units := by
  have hlog := log2_lt_of_lt_shiftLeft (by decide) h
  have hzero : m.units.log2 - 52 = 0 := by omega
  rw [rank, spacing_eq_one (by omega), hzero, Nat.div_one, Nat.zero_shiftLeft, Nat.zero_add]

/-- From 2⁵² on, a size counts its spacing between 2⁵² and 2⁵³ times. -/
theorem units_div_spacing_mem {m : Magnitude} (h : 1 <<< 52 ≤ m.units) :
    1 <<< 52 ≤ m.units / spacing m.units ∧ m.units / spacing m.units < 1 <<< 53 := by
  have hne : m.units ≠ 0 := by
    intro hzero
    rw [hzero] at h
    exact absurd h (by decide)
  have hlog : 52 ≤ m.units.log2 := (Nat.le_log2 hne).mpr (by rwa [Nat.one_shiftLeft] at h)
  rw [Nat.le_div_iff_mul_le (spacing_pos _), Nat.div_lt_iff_lt_mul (spacing_pos _), spacing,
    Nat.one_shiftLeft, Nat.one_shiftLeft, Nat.one_shiftLeft, ← Nat.pow_add, ← Nat.pow_add]
  exact ⟨Nat.le_trans (Nat.pow_le_pow_right (by omega) (by omega)) (Nat.log2_self_le hne),
    Nat.lt_of_lt_of_le Nat.lt_log2_self (Nat.pow_le_pow_right (by omega) (by omega))⟩

/-- The rank stays below the reserved exponent field. -/
theorem rank_lt (m : Magnitude) : m.rank < 2047 <<< 52 := by
  by_cases h : m.units < 1 <<< 52
  · rw [rank_of_lt h]; omega
  · have := units_div_spacing_mem (Nat.le_of_not_lt h)
    have := m.bounded
    rw [rank]
    omega

/-- The size with the given exponent field below the reserved one and the given fraction. -/
def ofFields (exponent fraction : Nat) (hexponent : exponent < 2047)
    (hfraction : fraction < 1 <<< 52) : Magnitude :=
  if exponent = 0 then
    { units := fraction
      precise := by
        have := log2_lt_of_lt_shiftLeft (by decide) hfraction
        rw [spacing_eq_one (by omega)]
        exact Nat.one_dvd _
      bounded := Nat.lt_trans (log2_lt_of_lt_shiftLeft (by decide) hfraction) (by decide) }
  else
    { units := (1 <<< 52 + fraction) <<< (exponent - 1)
      precise := spacing_dvd_shiftLeft (by omega) _
      bounded := by
        have hsignificand : 1 <<< 52 + fraction < 1 <<< 53 := by omega
        have := log2_lt_of_lt_shiftLeft (by omega) (shiftLeft_lt hsignificand (exponent - 1))
        omega }

/-- The two fields of its rank give a size back. -/
theorem ofFields_rank (m : Magnitude) (hexponent : m.rank >>> 52 < 2047)
    (hfraction : m.rank % 1 <<< 52 < 1 <<< 52) :
    ofFields (m.rank >>> 52) (m.rank % 1 <<< 52) hexponent hfraction = m := by
  apply ext
  by_cases h : m.units < 1 <<< 52
  · have hrank := rank_of_lt h
    rw [ofFields, if_pos (by omega)]
    simp only [hrank, Nat.mod_eq_of_lt h]
  · have hquot := units_div_spacing_mem (Nat.le_of_not_lt h)
    have hexp : m.rank >>> 52 = m.units.log2 - 52 + 1 := by rw [rank]; omega
    have hfrac : 1 <<< 52 + m.rank % 1 <<< 52 = m.units / spacing m.units := by
      rw [rank, fractions_eq]
      omega
    rw [ofFields, if_neg (by omega)]
    simp only [hfrac, hexp, Nat.add_sub_cancel]
    rw [Nat.shiftLeft_eq, ← Nat.one_shiftLeft]
    exact Nat.div_mul_cancel m.precise

end Magnitude

namespace Binary64

/-- The bit pattern of a double; NaN has the quiet pattern without payload. -/
def toBits : Binary64 → UInt64
  | .nan => 0x7ff8000000000000
  | .infinite negative => .ofNat (negative.toNat <<< 63 + 2047 <<< 52)
  | .finite negative magnitude => .ofNat (negative.toNat <<< 63 + magnitude.rank)

/-- The double with the given bit pattern. -/
def ofBits (bits : UInt64) : Binary64 :=
  let negative := decide (1 <<< 63 ≤ bits.toNat)
  let exponent := bits.toNat >>> 52 % 2048
  let fraction := bits.toNat % 1 <<< 52
  if h : exponent < 2047 then
    .finite negative (.ofFields exponent fraction h (Nat.mod_lt _ (by decide)))
  else if fraction = 0 then
    .infinite negative
  else
    .nan

/-- The bit pattern of a finite double is its sign and its rank. -/
theorem toNat_toBits_finite (negative : Bool) (m : Magnitude) :
    (toBits (.finite negative m)).toNat = negative.toNat <<< 63 + m.rank := by
  have hrank := m.rank_lt
  have hsign : negative.toNat ≤ 1 := by cases negative <;> decide
  rw [toBits, UInt64.toNat_ofNat', Nat.mod_eq_of_lt (by omega)]

/-- A bit pattern of a double denotes the double again. -/
theorem ofBits_toBits (x : Binary64) : ofBits x.toBits = x := by
  cases x with
  | nan => rfl
  | infinite negative => cases negative <;> rfl
  | finite negative m =>
    have hrank := m.rank_lt
    have hsign : negative.toNat ≤ 1 := by cases negative <;> decide
    have hbits := toNat_toBits_finite negative m
    have hexp : (toBits (.finite negative m)).toNat >>> 52 % 2048 = m.rank >>> 52 := by omega
    have hfrac : (toBits (.finite negative m)).toNat % 1 <<< 52 = m.rank % 1 <<< 52 := by
      rw [fractions_eq]
      omega
    have hneg : decide (1 <<< 63 ≤ (toBits (.finite negative m)).toNat) = negative := by
      rw [hbits]
      cases negative
      · exact decide_eq_false (by simp only [Bool.toNat_false]; omega)
      · exact decide_eq_true (by simp only [Bool.toNat_true]; omega)
    simp only [ofBits, hexp, hfrac, hneg]
    rw [dif_pos (by omega), m.ofFields_rank]

end Binary64

end Reckoner
