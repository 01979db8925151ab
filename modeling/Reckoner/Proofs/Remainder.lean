import Reckoner.Proofs.RationalValue

/-!
# The remainder of doubles

The remainder of two finite doubles is exact: it is the dividend less a multiple of the divisor, as many
times as the quotient is when it is rounded toward zero. The step counts are divided as whole numbers,
so the quotient may be far larger than any double, and what is left over never needs more bits than the
divisor has.
-/

namespace Reckoner

/-- A rational without its fractional part: the whole number next to it toward zero. -/
def truncated (q : ℚ) : ℤ :=
  if 0 ≤ q then ⌊q⌋ else ⌈q⌉

/-- Truncating treats a rational and its opposite alike. -/
theorem truncated_neg (q : ℚ) : truncated (-q) = -truncated q := by
  unfold truncated
  rcases lt_trichotomy q 0 with hneg | rfl | hpos
  · rw [if_pos (neg_nonneg.mpr hneg.le), if_neg (not_le.mpr hneg), Int.floor_neg]
  · simp
  · rw [if_neg (not_le.mpr (neg_neg_iff_pos.mpr hpos)), if_pos hpos.le, Int.ceil_neg]

/-- A quotient of whole numbers is truncated to their whole quotient. -/
theorem truncated_natCast_div_natCast (a b : Nat) :
    truncated ((a : ℚ) / b) = ((a / b : Nat) : ℤ) := by
  rw [truncated, if_pos (div_nonneg (Nat.cast_nonneg a) (Nat.cast_nonneg b)),
    Rat.floor_natCast_div_natCast]
  rfl

/-- A sign before a quotient of whole numbers stands before its whole part. -/
theorem truncated_signed (negative : Bool) (a b : Nat) :
    (truncated (signed negative ((a : ℚ) / b)) : ℚ) = signed negative (a / b : Nat) := by
  have hwhole := truncated_natCast_div_natCast a b
  cases negative with
  | false =>
    change ((truncated ((a : ℚ) / b) : ℤ) : ℚ) = ((a / b : Nat) : ℚ)
    rw [hwhole, Int.cast_natCast]
  | true =>
    change ((truncated (-((a : ℚ) / b)) : ℤ) : ℚ) = -((a / b : Nat) : ℚ)
    rw [truncated_neg, hwhole, Int.cast_neg, Int.cast_natCast]

namespace Magnitude

/-- The quotient of two sizes is that of their step counts. -/
theorem rational_div_rational (a b : Magnitude) :
    a.rational / b.rational = (a.units : ℚ) / b.units :=
  div_div_div_cancel_right₀ stepsPerOne_pos.ne' _ _

/-- The remainder of two sizes is the first less as often the second as it goes into the first. -/
theorem rational_mod (a b : Magnitude) (hpos : 0 < b.units) :
    (a.mod b hpos).rational = a.rational - (a.units / b.units : Nat) * b.rational := by
  have hunits : (a.units : ℚ) = (a.units / b.units : Nat) * b.units + (a.units % b.units : Nat) := by
    exact_mod_cast (Nat.div_add_mod' a.units b.units).symm
  unfold rational mod
  dsimp only
  conv_rhs => rw [hunits]
  ring

/-- The remainder of two sizes is less than the second. -/
theorem rational_mod_lt (a b : Magnitude) (hpos : 0 < b.units) :
    (a.mod b hpos).rational < b.rational := by
  have hlt : ((a.units % b.units : Nat) : ℚ) < b.units := Nat.cast_lt.mpr (Nat.mod_lt _ hpos)
  exact div_lt_div_of_pos_right hlt stepsPerOne_pos

/-- Only the size zero is the rational zero. -/
theorem rational_ne_zero_iff {m : Magnitude} : m.rational ≠ 0 ↔ 0 < m.units := by
  rw [rational, div_ne_zero_iff, Nat.cast_ne_zero, Nat.pos_iff_ne_zero]
  exact and_iff_left stepsPerOne_pos.ne'

end Magnitude

/-- The dividend less as often the divisor as the truncated quotient says is the remainder of the sizes
under the sign of the dividend. -/
theorem signed_sub_truncated_mul (negative negative' : Bool) (a b : Magnitude) (hpos : 0 < b.units) :
    signed negative a.rational -
        truncated (signed negative a.rational / signed negative' b.rational) *
          signed negative' b.rational =
      signed negative (a.mod b hpos).rational := by
  rw [signed_div_signed, Magnitude.rational_div_rational, truncated_signed, Magnitude.rational_mod]
  cases negative <;> cases negative' <;> simp [signed] <;> ring

/-- The remainder of a finite double by a finite double that is not zero is finite, with the sign of the
dividend. -/
theorem mod_finite {negative negative' : Bool} {a b : Magnitude} (hpos : 0 < b.units) :
    Binary64.mod (.finite negative a) (.finite negative' b) = .finite negative (a.mod b hpos) :=
  dif_pos hpos

/-- The remainder of a finite double `x` by a finite double `y` that is not zero is the one double that
is `x - n * y` as a rational and has the sign bit of `x`, where `n` is `x / y` truncated; it is smaller
than `y`. By an infinity a finite double leaves itself. There is no remainder of an infinity, none by
zero, and none of or by a NaN. The operator `%` puts the remainder of the two topmost values in their
place, whatever lies below. -/
theorem mod_exact (x y : Binary64) :
    (∀ p q, x.rational? = some p → y.rational? = some q → q ≠ 0 →
        |p - truncated (p / q) * q| < |q| ∧
          ∀ r, Binary64.mod x y = r ↔
            r.rational? = some (p - truncated (p / q) * q) ∧ r.signBit = x.signBit) ∧
      (x.rational? ≠ none → (∃ negative, y = .infinite negative) → Binary64.mod x y = x) ∧
      ((∃ negative, x = .infinite negative) ∨ y.rational? = some 0 ∨ x = .nan ∨ y = .nan →
        Binary64.mod x y = .nan) ∧
      ∀ (t : Term) (below : List Binary64), t.kind = .operator → t.text = "%" →
        reduceStep (y :: x :: below) t = .ok (Binary64.mod x y :: below) := by
  refine ⟨fun p q hp hq hne => ?_, ?_, ?_, ?_⟩
  · obtain ⟨negative, a, rfl, rfl⟩ := rational?_eq_some_iff.mp hp
    obtain ⟨negative', b, rfl, rfl⟩ := rational?_eq_some_iff.mp hq
    have hpos : 0 < b.units := by
      rw [← abs_ne_zero, abs_signed, abs_ne_zero] at hne
      exact Magnitude.rational_ne_zero_iff.mp hne
    rw [signed_sub_truncated_mul negative negative' a b hpos, mod_finite hpos]
    refine ⟨?_, fun r => ⟨?_, ?_⟩⟩
    · rw [abs_signed, abs_signed, abs_of_nonneg (Magnitude.rational_nonneg _),
        abs_of_nonneg b.rational_nonneg]
      exact a.rational_mod_lt b hpos
    · rintro rfl
      exact ⟨rfl, by rw [signBit_finite, signBit_finite]⟩
    · rintro ⟨hr, hsign⟩
      refine (eq_of_rational?_eq hr rfl ?_).symm
      rw [hsign, signBit_finite, signBit_finite]
  · rintro hfinite ⟨negative, rfl⟩
    obtain ⟨p, hp⟩ := Option.ne_none_iff_exists'.mp hfinite
    obtain ⟨_, _, rfl, _⟩ := rational?_eq_some_iff.mp hp
    rfl
  · rintro (⟨negative, rfl⟩ | hzero | rfl | rfl)
    · cases y <;> rfl
    · obtain ⟨negative, b, rfl, hb⟩ := rational?_eq_some_iff.mp hzero
      have hb' : b.rational = 0 := by rw [← abs_eq_zero, ← abs_signed negative, hb, abs_zero]
      have hunits : ¬ 0 < b.units := fun hpos => Magnitude.rational_ne_zero_iff.mpr hpos hb'
      cases x with
      | finite s a => exact dif_neg hunits
      | infinite s => rfl
      | nan => rfl
    · cases y <;> rfl
    · cases x <;> rfl
  · intro t below hkind htext
    have hop : t.operator? = some .mod := Term.operator?_eq_some_iff.mpr ⟨hkind, htext⟩
    simp [reduceStep, hkind, hop, Operator.apply]

/-- The double next to -10³⁰⁰ leaves -1 by seven, though their quotient has three hundred digits. -/
theorem mod_exact_far :
    ∃ p q, (Binary64.ofDecimal true 1 300).rational? = some p ∧
      (Binary64.ofDecimal false 7 0).rational? = some q ∧ q ≠ 0 ∧
        |p - truncated (p / q) * q| < |q| ∧
          (Binary64.ofDecimal true 1 0).rational? = some (p - truncated (p / q) * q) ∧
            (Binary64.ofDecimal true 1 0).signBit = true := by
  have hx : (Binary64.ofDecimal true 1 300).rational? ≠ none := by decide +kernel
  have hy : (Binary64.ofDecimal false 7 0).rational? ≠ none := by decide +kernel
  have hzero : (Binary64.ofDecimal false 7 0).rational? ≠ some 0 := by decide +kernel
  have hsign : (Binary64.ofDecimal true 1 300).signBit = true := by decide +kernel
  have hmod : Binary64.mod (.ofDecimal true 1 300) (.ofDecimal false 7 0) = .ofDecimal true 1 0 := by
    decide +kernel
  obtain ⟨p, hp⟩ := Option.ne_none_iff_exists'.mp hx
  obtain ⟨q, hq⟩ := Option.ne_none_iff_exists'.mp hy
  have hne : q ≠ 0 := by
    rintro rfl
    exact hzero hq
  obtain ⟨hlt, hiff⟩ := (mod_exact _ _).1 p q hp hq hne
  obtain ⟨hr, hbit⟩ := (hiff _).mp hmod
  exact ⟨p, q, hp, hq, hne, hlt, hr, hbit.trans hsign⟩

end Reckoner
