import Mathlib.Data.Rat.Floor
import Reckoner.Proofs.DecimalValue
import Reckoner.Proofs.NumberShape

/-!
# The rationals that doubles are

A finite double is a sign before a whole number of steps of 2⁻¹⁰⁷⁴. As a rational it is determined by
this, and it determines the double but for the sign of zero.
-/

namespace Reckoner

/-- A rational with a sign put before it. -/
def signed (negative : Bool) (a : ℚ) : ℚ :=
  if negative then -a else a

/-- A sign leaves the size as it is. -/
@[simp] theorem abs_signed (negative : Bool) (a : ℚ) : |signed negative a| = |a| := by
  cases negative
  · rfl
  · exact abs_neg a

/-- Signs before two rationals are one sign before their quotient. -/
theorem signed_div_signed (negative negative' : Bool) (a b : ℚ) :
    signed negative a / signed negative' b = signed (negative != negative') (a / b) := by
  cases negative <;> cases negative' <;> simp [signed, neg_div, div_neg]

/-- Nonnegative rationals that are alike under signs are alike. -/
theorem signed_inj {negative negative' : Bool} {a b : ℚ} (ha : 0 ≤ a) (hb : 0 ≤ b)
    (h : signed negative a = signed negative' b) : a = b := by
  have habs := congrArg abs h
  rwa [abs_signed, abs_signed, abs_of_nonneg ha, abs_of_nonneg hb] at habs

namespace Magnitude

/-- The rational that a size is. -/
def rational (m : Magnitude) : ℚ :=
  m.units / stepsPerOne

theorem rational_nonneg (m : Magnitude) : 0 ≤ m.rational :=
  div_nonneg (Nat.cast_nonneg _) stepsPerOne_pos.le

/-- A size is determined by its rational. -/
theorem rational_inj {a b : Magnitude} : a.rational = b.rational ↔ a = b := by
  constructor
  · intro h
    have hunits : (a.units : ℚ) = b.units := (div_left_inj' stepsPerOne_pos.ne').mp h
    exact Magnitude.ext (Nat.cast_injective hunits)
  · rintro rfl
    rfl

end Magnitude

/-- The rational number that a finite double is. -/
def Binary64.rational? : Binary64 → Option ℚ
  | .finite negative magnitude => some (signed negative magnitude.rational)
  | _ => none

/-- A double with a rational is finite. -/
theorem rational?_eq_some_iff {x : Binary64} {q : ℚ} :
    x.rational? = some q ↔ ∃ negative m, x = .finite negative m ∧ signed negative m.rational = q := by
  cases x with
  | nan => simp [Binary64.rational?]
  | infinite negative => simp [Binary64.rational?]
  | finite negative m =>
    simp only [Binary64.rational?, Option.some.injEq, Binary64.finite.injEq]
    constructor
    · intro h
      exact ⟨negative, m, ⟨rfl, rfl⟩, h⟩
    · rintro ⟨_, _, ⟨rfl, rfl⟩, h⟩
      exact h

/-- A finite double is determined by its rational and its sign bit. -/
theorem eq_of_rational?_eq {x y : Binary64} {q : ℚ} (hx : x.rational? = some q)
    (hy : y.rational? = some q) (hsign : x.signBit = y.signBit) : x = y := by
  obtain ⟨negative, m, rfl, hm⟩ := rational?_eq_some_iff.mp hx
  obtain ⟨negative', m', rfl, hm'⟩ := rational?_eq_some_iff.mp hy
  rw [signBit_finite, signBit_finite] at hsign
  have hrational := signed_inj m.rational_nonneg m'.rational_nonneg (hm.trans hm'.symm)
  rw [hsign, Magnitude.rational_inj.mp hrational]

end Reckoner
