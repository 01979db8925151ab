import Reckoner.Proofs.RationalValue

/-!
# The double nearest to a rational

Rounding chooses the nearest double. On the grid of its own size a rational is rounded to the nearest
point, and of two to the even one. The doubles above this size lie on the same grid, and those below
lie beyond the power of two at its lower end, which is a point of the grid too; so no double is nearer.
Whether a double is even can be told by its last bit.

What would be rounded past the last finite double becomes an infinity, which is from half a spacing
beyond that double on.
-/

namespace Reckoner

/-- How far a whole number is from a quotient, scaled up by the denominator. -/
def distance (num den n : Nat) : Nat :=
  ((n * den : Nat) - (num : Int)).natAbs

/-- A quotient is rounded to a whole number at most half a denominator away, and to an even one if it is
as much as that. -/
theorem two_mul_distance_roundDiv (num : Nat) {den : Nat} (hden : 0 < den) :
    2 * distance num den (roundDiv num den) ≤ den ∧
      (2 * distance num den (roundDiv num den) = den → roundDiv num den % 2 = 0) := by
  have hnum := Nat.div_add_mod' num den
  have hrest := Nat.mod_lt num hden
  unfold distance roundDiv
  generalize num / den = low at hnum ⊢
  generalize num % den = rest at hnum hrest ⊢
  dsimp only
  split
  · constructor <;> omega
  · have hnext : (low + 1) * den = low * den + den := Nat.succ_mul low den
    constructor <;> omega

/-- No whole number is nearer to a quotient than the rounded one, and another one is as near only if the
rounded one is even. -/
theorem distance_roundDiv_le (num : Nat) {den : Nat} (hden : 0 < den) (n : Nat) :
    distance num den (roundDiv num den) ≤ distance num den n ∧
      (distance num den (roundDiv num den) = distance num den n →
        n = roundDiv num den ∨ roundDiv num den % 2 = 0) := by
  obtain ⟨hhalf, heven⟩ := two_mul_distance_roundDiv num hden
  generalize roundDiv num den = k at hhalf heven ⊢
  have hapart : n = k ∨ den ≤ distance num den n + distance num den k := by
    unfold distance
    rcases Nat.lt_trichotomy n k with hlt | heq | hgt
    · have := Nat.mul_le_mul_right den hlt
      rw [Nat.succ_mul] at this
      omega
    · exact .inl heq
    · have := Nat.mul_le_mul_right den hgt
      rw [Nat.succ_mul] at this
      omega
  rcases hapart with rfl | hapart
  · exact ⟨Nat.le_refl _, fun _ => .inl rfl⟩
  · exact ⟨by omega, fun h => .inr (heven (by omega))⟩

/-- On a coarser grid the distance is counted in its spacing. -/
theorem distance_mul (num den spacing n : Nat) :
    distance num (den * spacing) n = distance num den (n * spacing) := by
  unfold distance
  rw [Nat.mul_comm den spacing, Nat.mul_assoc]

/-- A step count is even if it is an even multiple of its own spacing. -/
def EvenUnits (units : Nat) : Prop :=
  units / spacing units % 2 = 0

section Rounding

variable (num : Nat) {den : Nat}

/-- No point of the grid that a quotient is rounded on is nearer to it. -/
theorem distance_roundUnits_le_of_dvd (hden : 0 < den) {units : Nat}
    (hgrid : spacing (num / den) ∣ units) :
    distance num den (roundUnits num den) ≤ distance num den units ∧
      (distance num den (roundUnits num den) = distance num den units →
        units = roundUnits num den ∨
          roundDiv num (den * spacing (num / den)) % 2 = 0) := by
  obtain ⟨n, rfl⟩ := hgrid
  have hpos := spacing_pos (num / den)
  obtain ⟨hle, heven⟩ := distance_roundDiv_le num (Nat.mul_pos hden hpos) n
  rw [distance_mul, distance_mul] at hle heven
  rw [Nat.mul_comm (spacing (num / den)) n]
  exact ⟨hle, fun h => (heven h).imp_left fun hn => by rw [hn, roundUnits]⟩

/-- A quotient is rounded to a step count between the powers of two around it. -/
theorem roundUnits_mem (hden : 0 < den) :
    roundUnits num den ≤ 2 ^ ((num / den).log2 + 1) ∧
      (num / den ≠ 0 → 2 ^ (num / den).log2 ≤ roundUnits num den) := by
  have hbelow : num < 2 ^ ((num / den).log2 + 1) * den :=
    (Nat.div_lt_iff_lt_mul hden).mp Nat.lt_log2_self
  refine ⟨roundUnits_le_of_le hden (spacing_dvd_two_pow (Nat.le_succ _)) hbelow.le, fun hne => ?_⟩
  have habove : 2 ^ (num / den).log2 * den ≤ num :=
    (Nat.le_div_iff_mul_le hden).mp (Nat.log2_self_le hne)
  exact le_roundUnits_of_le hden (spacing_dvd_two_pow (Nat.le_refl _)) habove

/-- A quotient that is rounded to an even point of its grid is rounded to an even step count. If the
rounded one is too large for the grid, it is a power of two. -/
theorem evenUnits_roundUnits (hden : 0 < den)
    (heven : roundDiv num (den * spacing (num / den)) % 2 = 0) : EvenUnits (roundUnits num den) := by
  obtain ⟨hle, hge⟩ := roundUnits_mem num hden
  rcases Nat.lt_or_eq_of_le hle with hlt | heq
  · have hlog : (roundUnits num den).log2 = (num / den).log2 := by
      by_cases hzero : num / den = 0
      · rw [hzero, Nat.log2_zero] at hlt ⊢
        exact Nat.lt_one_iff.mp (log2_lt_of_lt_shiftLeft Nat.one_pos hlt)
      · have hpos : roundUnits num den ≠ 0 :=
          Nat.ne_of_gt (Nat.lt_of_lt_of_le (Nat.two_pow_pos _) (hge hzero))
        exact (Nat.log2_eq_iff hpos).mpr ⟨hge hzero, hlt⟩
    have hspacing : spacing (roundUnits num den) = spacing (num / den) := by
      rw [spacing, hlog, spacing]
    unfold EvenUnits
    rw [hspacing, roundUnits, Nat.mul_div_cancel _ (spacing_pos _)]
    exact heven
  · have hexponent : (num / den).log2 + 1 - ((num / den).log2 + 1 - 52) ≠ 0 := by omega
    rw [EvenUnits, heq, spacing, Nat.log2_two_pow, Nat.one_shiftLeft, Nat.pow_div (by omega) (by omega)]
    exact Nat.mod_eq_zero_of_dvd (dvd_pow_self 2 hexponent)

/-- A size smaller than the power of two below a quotient is farther from it than the rounded one. -/
theorem distance_roundUnits_lt (hden : 0 < den) {units : Nat} (hlt : units < 2 ^ (num / den).log2)
    (hne : num / den ≠ 0) : distance num den (roundUnits num den) < distance num den units := by
  have hle := (distance_roundUnits_le_of_dvd num hden (spacing_dvd_two_pow (Nat.le_refl _))).1
  have habove : 2 ^ (num / den).log2 * den ≤ num :=
    (Nat.le_div_iff_mul_le hden).mp (Nat.log2_self_le hne)
  have hscaled := Nat.mul_lt_mul_of_pos_right hlt hden
  unfold distance at hle ⊢
  omega

/-- No step count that a double can have is nearer to a quotient than the rounded one, and another one
is as near only if the rounded one is even. -/
theorem distance_roundUnits_le (hden : 0 < den) {units : Nat} (hprecise : spacing units ∣ units) :
    distance num den (roundUnits num den) ≤ distance num den units ∧
      (distance num den (roundUnits num den) = distance num den units →
        units = roundUnits num den ∨ EvenUnits (roundUnits num den)) := by
  by_cases hlog : (num / den).log2 ≤ units.log2
  · have hgrid : spacing (num / den) ∣ units := by
      refine Nat.dvd_trans ?_ hprecise
      rw [spacing, spacing, Nat.one_shiftLeft, Nat.one_shiftLeft]
      exact Nat.pow_dvd_pow 2 (by omega)
    obtain ⟨hle, heven⟩ := distance_roundUnits_le_of_dvd num hden hgrid
    exact ⟨hle, fun h => (heven h).imp_right (evenUnits_roundUnits num hden)⟩
  · have hne : num / den ≠ 0 := by
      intro hzero
      rw [hzero, Nat.log2_zero] at hlog
      exact hlog (Nat.zero_le _)
    have hsmall : units < 2 ^ (num / den).log2 :=
      Nat.lt_of_lt_of_le Nat.lt_log2_self (Nat.pow_le_pow_right (by omega) (by omega))
    have hlt := distance_roundUnits_lt num hden hsmall hne
    exact ⟨hlt.le, fun h => absurd h hlt.ne⟩

end Rounding

/-- The distance from a quotient as a rational. -/
theorem abs_sub_div_eq_distance {num den : Nat} (hden : 0 < den) (n : Nat) :
    |(n : ℚ) - num / den| = distance num den n / den := by
  have hpos : (0 : ℚ) < den := Nat.cast_pos.mpr hden
  have hsplit : (n : ℚ) - num / den = ((n * den : Nat) - (num : ℤ) : ℤ) / den := by
    push_cast
    field_simp
  rw [hsplit, abs_div, abs_of_pos hpos, distance, Nat.cast_natAbs, Int.cast_abs]

/-- No step count that a double can have is nearer to a rational than the one that it is rounded to, and
another one is as near only if the rounded one is even. -/
theorem nearestUnits_nearest {q : ℚ} (hq : 0 ≤ q) {units : Nat} (hprecise : spacing units ∣ units) :
    |(nearestUnits q : ℚ) - q| ≤ |(units : ℚ) - q| ∧
      (|(nearestUnits q : ℚ) - q| = |(units : ℚ) - q| →
        units = nearestUnits q ∨ EvenUnits (nearestUnits q)) := by
  have hden := Rat.den_pos q
  have hpos : (0 : ℚ) < q.den := Nat.cast_pos.mpr hden
  have hquot : q = (q.num.toNat : ℚ) / q.den := by
    have hnum : ((q.num.toNat : ℤ) : ℚ) = q.num := by
      rw [Int.toNat_of_nonneg (Rat.num_nonneg.mpr hq)]
    rw [Int.cast_natCast] at hnum
    rw [hnum, Rat.num_div_den]
  obtain ⟨hle, heven⟩ := distance_roundUnits_le q.num.toNat hden hprecise
  have habs (n : Nat) : |(n : ℚ) - q| = distance q.num.toNat q.den n / q.den := by
    conv_lhs => rw [hquot]
    exact abs_sub_div_eq_distance hden n
  rw [habs, habs, div_le_div_iff_of_pos_right hpos, div_left_inj' hpos.ne', Nat.cast_le, Nat.cast_inj]
  exact ⟨hle, heven⟩

/-- The step count from which on there is no finite double. -/
def limitUnits : Nat :=
  2 ^ (1024 + 1074)

/-- The largest step count of a finite double, with all 53 bits set. -/
def largestUnits : Nat :=
  limitUnits - 2 ^ (971 + 1074)

/-- The step count halfway between the largest finite double and the limit. -/
def overflowUnits : Nat :=
  limitUnits - 2 ^ (970 + 1074)

/-- The limit is as far beyond the halfway point as this is beyond the largest finite double. -/
theorem overflowUnits_halfway :
    (overflowUnits : ℚ) - largestUnits = limitUnits - overflowUnits := by
  have hhalfway : 2 * overflowUnits = limitUnits + largestUnits := by decide +kernel
  have hcast : (2 : ℚ) * overflowUnits = limitUnits + largestUnits := by exact_mod_cast hhalfway
  linarith

/-- The halfway point as a rational. -/
theorem overflowUnits_eq : (overflowUnits : ℚ) = (2 ^ 1024 - 2 ^ 970) * stepsPerOne := by
  have hle : 2 ^ (970 + 1074) ≤ limitUnits := by decide +kernel
  rw [sub_mul, two_pow_mul_stepsPerOne, two_pow_mul_stepsPerOne, overflowUnits, Nat.cast_sub hle,
    limitUnits]

/-- A rational is rounded to the limit or past it exactly from halfway on. -/
theorem le_log2_nearestUnits_iff {q : ℚ} (hq : 0 ≤ q) :
    1024 + 1074 ≤ (nearestUnits q).log2 ↔ (overflowUnits : ℚ) ≤ q := by
  have hlargest : spacing largestUnits ∣ largestUnits := by decide +kernel
  have hlimit : 0 < limitUnits := by decide +kernel
  have hbound : largestUnits < limitUnits := by decide +kernel
  have hoverflow : nearestUnits overflowUnits = limitUnits := by
    have hround : roundUnits overflowUnits 1 = limitUnits := by decide +kernel
    rwa [roundUnits_eq_nearestUnits Nat.one_pos, Nat.cast_one, div_one] at hround
  constructor
  · intro hlog
    have hpos : nearestUnits q ≠ 0 := by
      intro hzero
      rw [hzero, Nat.log2_zero] at hlog
      omega
    have hlarge : limitUnits ≤ nearestUnits q :=
      le_trans (pow_le_pow_right₀ (by omega) hlog) (Nat.log2_self_le hpos)
    by_contra hlt
    rcases le_total q largestUnits with hle | hge
    · have hmono := nearestUnits_mono hle
      rw [nearestUnits_natCast hlargest] at hmono
      omega
    · -- the largest double would be nearer
      have hnearest := (nearestUnits_nearest hq hlargest).1
      have hcast : (limitUnits : ℚ) ≤ nearestUnits q := Nat.cast_le.mpr hlarge
      have hhalfway := overflowUnits_halfway
      rw [abs_of_nonneg (by linarith), abs_of_nonpos (by linarith)] at hnearest
      linarith
  · intro hle
    have hmono := nearestUnits_mono hle
    rw [hoverflow] at hmono
    have hpos : nearestUnits q ≠ 0 := Nat.ne_of_gt (Nat.lt_of_lt_of_le hlimit hmono)
    rw [limitUnits] at hmono
    have hlog := (Nat.le_log2 hpos).mpr hmono
    exact hlog

/-- A decimal is not less than nothing. -/
theorem decimalSteps_nonneg (significand : Nat) (exponent : Int) :
    0 ≤ decimalSteps significand exponent := by
  have hdecimal : (0 : ℚ) ≤ significand * 10 ^ exponent := by positivity
  exact mul_nonneg hdecimal stepsPerOne_pos.le

/-- A decimal denotes an infinity exactly if that is of its sign and its number of steps is halfway to
the limit or more. -/
theorem ofDecimal_eq_infinite_iff {negative negative' : Bool} {significand : Nat} {exponent : Int} :
    Binary64.ofDecimal negative significand exponent = .infinite negative' ↔
      negative = negative' ∧ (overflowUnits : ℚ) ≤ decimalSteps significand exponent := by
  rw [← le_log2_nearestUnits_iff (decimalSteps_nonneg significand exponent)]
  rcases ofDecimal_cases negative significand exponent with ⟨m, hm⟩ | hinfinite
  · rw [hm]
    refine iff_of_false (by simp) fun h => ?_
    rw [(ofDecimal_eq_finite_iff.mp hm).2] at h
    exact absurd m.bounded (Nat.not_lt_of_le h.2)
  · rw [hinfinite, Binary64.infinite.injEq]
    refine (and_iff_left_of_imp fun _ => ?_).symm
    by_contra hlt
    let m : Magnitude := {
      units := nearestUnits (decimalSteps significand exponent)
      precise := spacing_roundUnits_dvd _ _
      bounded := Nat.lt_of_not_le hlt }
    rw [ofDecimal_eq_finite_iff.mpr ⟨rfl, (rfl : _ = m.units)⟩] at hinfinite
    cases hinfinite

namespace Binary64

/-- Whether a double is nearest to a rational: it is finite, no finite double is nearer, and if one of
another value is as near, then the last bit of this one is zero. -/
def IsNearest (x : Binary64) (q : ℚ) : Prop :=
  ∃ r, x.rational? = some r ∧ ∀ (y : Binary64) (s : ℚ), y.rational? = some s →
    |r - q| ≤ |s - q| ∧ (|r - q| = |s - q| → s = r ∨ x.toBits.toNat % 2 = 0)

end Binary64

/-- The last bit of a finite double is zero if its step count is even. -/
theorem toBits_mod_two {negative : Bool} {m : Magnitude} (h : EvenUnits m.units) :
    (Binary64.finite negative m).toBits.toNat % 2 = 0 := by
  unfold EvenUnits at h
  rw [Binary64.toNat_toBits_finite, Magnitude.rank]
  omega

/-- The distance of a size from a rational in steps. -/
theorem abs_rational_sub (m : Magnitude) (a : ℚ) :
    |m.rational - a| = |(m.units : ℚ) - a * stepsPerOne| / stepsPerOne := by
  have hscale := stepsPerOne_pos
  have hsplit : m.rational - a = ((m.units : ℚ) - a * stepsPerOne) / stepsPerOne := by
    rw [Magnitude.rational, sub_div, mul_div_cancel_right₀ a hscale.ne']
  rw [hsplit, abs_div, abs_of_pos hscale]

/-- Under one sign two rationals are as far apart as without it. -/
theorem abs_signed_sub_signed (negative : Bool) (a b : ℚ) :
    |signed negative a - signed negative b| = |a - b| := by
  cases negative
  · rfl
  · rw [signed, signed, if_pos rfl, if_pos rfl, neg_sub_neg, abs_sub_comm]

/-- Under any signs two nonnegative rationals are at least as far apart as without them. -/
theorem abs_sub_le_abs_signed_sub_signed (negative negative' : Bool) {a b : ℚ} (ha : 0 ≤ a)
    (hb : 0 ≤ b) : |a - b| ≤ |signed negative a - signed negative' b| := by
  have h := abs_abs_sub_abs_le (signed negative a) (signed negative' b)
  rwa [abs_signed, abs_signed, abs_of_nonneg ha, abs_of_nonneg hb] at h

/-- Under different signs two nonnegative rationals are as far apart as both are from zero. -/
theorem abs_signed_sub_signed_of_ne {negative negative' : Bool} (hne : negative ≠ negative')
    {a b : ℚ} (ha : 0 ≤ a) (hb : 0 ≤ b) : |signed negative a - signed negative' b| = a + b := by
  cases negative <;> cases negative'
  · exact absurd rfl hne
  · change |a - -b| = a + b
    rw [sub_neg_eq_add, abs_of_nonneg (add_nonneg ha hb)]
  · change |-a - b| = a + b
    rw [← neg_add', abs_neg, abs_of_nonneg (add_nonneg ha hb)]
  · exact absurd rfl hne

/-- If the size nearest to a rational is as far from it as from its negative, then the size is zero. -/
theorem rational_eq_zero_of_tie {a : ℚ} {m : Magnitude} (hm : nearestUnits (a * stepsPerOne) = m.units)
    (htie : |m.rational - a| = m.rational + a) : m.rational = 0 := by
  rcases le_total a m.rational with hle | hge
  · rw [abs_of_nonneg (sub_nonneg.mpr hle)] at htie
    have hnothing : a = 0 := by linarith
    rw [hnothing, zero_mul, nearestUnits_eq_zero (by norm_num)] at hm
    rw [Magnitude.rational, ← hm, Nat.cast_zero, zero_div]
  · rw [abs_of_nonpos (sub_nonpos.mpr hge)] at htie
    linarith

/-- A finite double whose step count is nearest to the size of a rational is nearest to the rational
under its sign. -/
theorem isNearest_finite {a : ℚ} (ha : 0 ≤ a) (negative : Bool) {m : Magnitude}
    (hm : nearestUnits (a * stepsPerOne) = m.units) :
    (Binary64.finite negative m).IsNearest (signed negative a) := by
  have hscale := stepsPerOne_pos
  refine ⟨signed negative m.rational, rfl, fun y s hy => ?_⟩
  obtain ⟨negative', w, rfl, rfl⟩ := rational?_eq_some_iff.mp hy
  obtain ⟨hle, heven⟩ := nearestUnits_nearest (mul_nonneg ha hscale.le) w.precise
  rw [hm] at hle heven
  have hsizes : |m.rational - a| ≤ |w.rational - a| := by
    rw [abs_rational_sub, abs_rational_sub]
    exact div_le_div_of_nonneg_right hle hscale.le
  have hsigns := abs_sub_le_abs_signed_sub_signed negative' negative w.rational_nonneg ha
  rw [abs_signed_sub_signed]
  refine ⟨hsizes.trans hsigns, fun htie => ?_⟩
  have hsame : |m.rational - a| = |w.rational - a| := le_antisymm hsizes (htie ▸ hsigns)
  rw [abs_rational_sub, abs_rational_sub, div_left_inj' hscale.ne'] at hsame
  rcases heven hsame with hunits | hparity
  · -- the other double is the rounded one, or differs from it in its sign only
    left
    obtain rfl : w = m := Magnitude.ext hunits
    rcases eq_or_ne negative' negative with rfl | hne
    · rfl
    · rw [abs_signed_sub_signed_of_ne hne w.rational_nonneg ha] at htie
      rw [rational_eq_zero_of_tie hm htie]
      simp [signed]
  · exact .inr (toBits_mod_two hparity)

end Reckoner
