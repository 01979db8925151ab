import Mathlib.Data.List.DropRight
import Mathlib.Tactic.FieldSimp
import Reckoner.Decimal.Shortest
import Reckoner.Proofs.DecimalValue

/-!
# The shortest decimal is shortest

The decimal that the search selects for a positive double reads back to it, and no decimal with fewer
significant digits does. The decimals that read back form an interval around the double, so if any
multiple of a power of ten lies in it, one of the two next to the double does: a grid on which both
fail has nothing to offer. The search starts on a grid that is too coarse for anything to read back,
and a decimal with fewer digits than the selected one would put a power of ten between the two, on a
coarser grid.
-/

namespace Reckoner

/-- How many digits a whole number has without the zeros at its end. -/
def significance (n : Nat) : Nat :=
  ((Nat.toDigits 10 n).rdropWhile (· = '0')).length

/-- A zero at the end is not significant. -/
theorem significance_mul_ten (n : Nat) : significance (n * 10) = significance n := by
  rcases Nat.eq_zero_or_pos n with rfl | hpos
  · rfl
  · have hdigits : Nat.toDigits 10 (n * 10) = Nat.toDigits 10 n ++ ['0'] := by
      rw [Nat.toDigits_of_base_le (by omega) (by omega), Nat.mul_div_cancel n (by omega),
        Nat.mul_mod_left]
      rfl
    rw [significance, hdigits, List.rdropWhile_concat_pos _ _ _ (by decide), significance]

/-- Zeros at the end are not significant. -/
theorem significance_mul_pow (n zeros : Nat) : significance (n * 10 ^ zeros) = significance n := by
  induction zeros with
  | zero => rw [Nat.pow_zero, Nat.mul_one]
  | succ zeros ih => rw [Nat.pow_succ, ← Nat.mul_assoc, significance_mul_ten, ih]

/-- A number has no more significant digits than digits. -/
theorem significance_le_of_lt {n k : Nat} (hk : 0 < k) (h : n < 10 ^ k) : significance n ≤ k := by
  calc significance n ≤ (Nat.toDigits 10 n).length := (List.rdropWhile_prefix _ _).length_le
    _ ≤ k := (Nat.length_toDigits_le_iff (by omega) hk).mpr h

/-- The last digit of a number that is no multiple of ten is not zero. -/
theorem exists_toDigits_concat {n : Nat} (h : n % 10 ≠ 0) :
    ∃ first last, Nat.toDigits 10 n = first ++ [last] ∧ last ≠ '0' := by
  have hlast : ∀ d < 10, d ≠ 0 → Nat.digitChar d ≠ '0' := by decide
  rcases Nat.lt_or_ge n 10 with hlt | hle
  · rw [Nat.mod_eq_of_lt hlt] at h
    exact ⟨[], n.digitChar, Nat.toDigits_of_lt_base hlt, hlast n hlt h⟩
  · exact ⟨_, _, Nat.toDigits_of_base_le (by omega) hle,
      hlast (n % 10) (Nat.mod_lt n (by omega)) h⟩

/-- Every digit of a number that is no multiple of ten is significant. -/
theorem significance_of_mod_ne_zero {n : Nat} (h : n % 10 ≠ 0) :
    significance n = (Nat.toDigits 10 n).length := by
  obtain ⟨first, last, hdigits, hlast⟩ := exists_toDigits_concat h
  rw [significance, hdigits, List.rdropWhile_concat_neg _ _ _ (by simpa using hlast)]

/-- Without the zeros at its end a number has just its significant digits. -/
theorem exists_lt_pow_significance {n : Nat} (hpos : 0 < n) :
    ∃ core zeros, n = core * 10 ^ zeros ∧ core < 10 ^ significance n ∧ 0 < significance n := by
  induction n using Nat.strong_induction_on with
  | _ n ih =>
    by_cases hlast : n % 10 = 0
    · have hn : n = n / 10 * 10 := by omega
      obtain ⟨core, zeros, hcore, hlt, hsig⟩ := ih (n / 10) (by omega) (by omega)
      have hsame : significance n = significance (n / 10) := by
        conv_lhs => rw [hn]
        exact significance_mul_ten _
      refine ⟨core, zeros + 1, ?_, hsame ▸ hlt, hsame ▸ hsig⟩
      rw [Nat.pow_succ, ← Nat.mul_assoc, ← hcore]
      exact hn
    · have hsig := significance_of_mod_ne_zero hlast
      have hlength : 0 < (Nat.toDigits 10 n).length := List.length_pos_of_ne_nil Nat.toDigits_ne_nil
      rw [hsig]
      exact ⟨n, 0, (Nat.mul_one n).symm,
        (Nat.length_toDigits_le_iff (by omega) hlength).mp (Nat.le_refl _), hlength⟩

theorem five_pow_pos (bits : Nat) : 0 < Nat.pow 5 bits :=
  Nat.pow_pos (by omega)

/-- Ten to a power is that power of two times that power of five. -/
theorem ten_pow_eq (bits : Nat) : (10 : ℚ) ^ bits = 2 ^ bits * (Nat.pow 5 bits : Nat) := by
  rw [Nat.pow_eq, Nat.cast_pow, ← mul_pow]
  norm_num

/-- A multiple of a power of ten, counted in smaller units, is a decimal. -/
theorem scaled_div_five_pow (count place bits : Nat) :
    ((count * Nat.pow 10 place : Nat) : ℚ) / (Nat.pow 5 bits : Nat) =
      count * 10 ^ (place - bits : Int) * 2 ^ bits := by
  have hpos : (0 : ℚ) < (Nat.pow 5 bits : Nat) := Nat.cast_pos.mpr (five_pow_pos bits)
  have hten : ((Nat.pow 10 place : Nat) : ℚ) = 10 ^ place := Nat.cast_pow 10 place
  rw [zpow_sub₀ (by norm_num), zpow_natCast, zpow_natCast, ten_pow_eq bits, Nat.cast_mul, hten]
  field_simp

/-- A multiple of a power of ten, in units of 10⁻¹⁰⁷⁴, is rounded as the decimal that it is. -/
theorem roundUnits_scaled (count place : Nat) :
    roundUnits (count * Nat.pow 10 place) (Nat.pow 5 1074) =
      nearestUnits (decimalSteps count (place - 1074 : Int)) := by
  have hbits : ((1074 : Nat) : Int) = 1074 := rfl
  rw [decimalSteps, stepsPerOne, ← hbits]
  generalize 1074 = bits
  rw [roundUnits_eq_nearestUnits (five_pow_pos bits), scaled_div_five_pow]

namespace Magnitude

variable {m : Magnitude}

/-- A multiple of a power of ten reads back exactly if the size is nearest to it. -/
theorem readsBack_iff {count place : Nat} :
    m.readsBack count place = true ↔
      nearestUnits (decimalSteps count (place - 1074 : Int)) = m.units := by
  rw [readsBack, decide_eq_true_eq, roundUnits_scaled]

/-- The size itself is a point of the finest grid. -/
theorem decimalSteps_decimalUnits (m : Magnitude) :
    decimalSteps m.decimalUnits (-1074) = m.units := by
  have hbits : ((1074 : Nat) : Int) = 1074 := rfl
  rw [decimalUnits, decimalSteps, stepsPerOne, ← hbits]
  generalize 1074 = bits
  have hpos : (0 : ℚ) < (Nat.pow 5 bits : Nat) := Nat.cast_pos.mpr (five_pow_pos bits)
  rw [zpow_neg, zpow_natCast, ten_pow_eq, Nat.cast_mul]
  field_simp

/-- The size is nearest to itself. -/
theorem nearestUnits_units (m : Magnitude) : nearestUnits m.units = m.units :=
  nearestUnits_natCast m.precise

/-- A multiple of a power of ten is a point of the finest grid. -/
theorem decimalSteps_grid (count place : Nat) :
    decimalSteps (count * 10 ^ place) (-1074) = decimalSteps count (place - 1074 : Int) := by
  rw [decimalSteps_mul_pow, Int.sub_eq_add_neg, Int.add_comm]

/-- A multiple of a power of ten up to the size is no more steps than the size. -/
theorem decimalSteps_le_units {count place : Nat} (h : count * 10 ^ place ≤ m.decimalUnits) :
    decimalSteps count (place - 1074 : Int) ≤ m.units := by
  calc decimalSteps count (place - 1074 : Int) = decimalSteps (count * 10 ^ place) (-1074) :=
        (decimalSteps_grid count place).symm
    _ ≤ decimalSteps m.decimalUnits (-1074) := decimalSteps_mono h _
    _ = m.units := m.decimalSteps_decimalUnits

/-- A multiple of a power of ten from the size on is no fewer steps than the size. -/
theorem units_le_decimalSteps {count place : Nat} (h : m.decimalUnits ≤ count * 10 ^ place) :
    m.units ≤ decimalSteps count (place - 1074 : Int) := by
  calc (m.units : ℚ) = decimalSteps m.decimalUnits (-1074) := m.decimalSteps_decimalUnits.symm
    _ ≤ decimalSteps (count * 10 ^ place) (-1074) := decimalSteps_mono h _
    _ = decimalSteps count (place - 1074 : Int) := decimalSteps_grid count place

/-- If any multiple of a power of ten reads back, one of the two next to the size does. -/
theorem readsBack_neighbour {count place : Nat} (h : m.readsBack count place = true) :
    m.readsBack (m.decimalUnits / 10 ^ place) place = true ∨
      m.readsBack (m.decimalUnits / 10 ^ place + 1) place = true := by
  have hpos : 0 < 10 ^ place := Nat.pow_pos (by omega)
  have hself := m.nearestUnits_units
  rw [readsBack_iff] at h ⊢
  rw [readsBack_iff]
  rcases Nat.lt_or_ge (m.decimalUnits / 10 ^ place) count with hcount | hcount
  · right
    have habove : m.decimalUnits ≤ (m.decimalUnits / 10 ^ place + 1) * 10 ^ place :=
      Nat.le_of_lt ((Nat.div_lt_iff_lt_mul hpos).mp (Nat.lt_succ_self _))
    exact nearestUnits_eq_of_between (units_le_decimalSteps habove) (decimalSteps_mono hcount _)
      hself h
  · left
    have hbelow : m.decimalUnits / 10 ^ place * 10 ^ place ≤ m.decimalUnits :=
      Nat.div_mul_le_self _ _
    exact nearestUnits_eq_of_between (decimalSteps_mono hcount _) (decimalSteps_le_units hbelow)
      h hself

/-- The neighbour that is selected on a grid reads back. -/
theorem readsBack_of_neighbour?_eq_some {place count : Nat} (h : m.neighbour? place = some count) :
    m.readsBack count place = true := by
  unfold neighbour? at h
  dsimp only at h
  split at h
  · next hnear =>
    cases h
    exact hnear
  · split at h
    · next hfar =>
      cases h
      exact hfar
    · cases h

/-- If no neighbour is selected on a grid, no point of the grid reads back. -/
theorem readsBack_of_neighbour?_eq_none {place : Nat} (h : m.neighbour? place = none)
    (count : Nat) : m.readsBack count place = false := by
  apply Bool.eq_false_iff.mpr
  intro hcount
  unfold neighbour? at h
  dsimp only at h
  split at h
  · cases h
  · next hnear =>
    split at h
    · cases h
    · next hfar =>
      have hneighbours : roundDiv m.decimalUnits (Nat.pow 10 place) =
            m.decimalUnits / 10 ^ place ∨
          roundDiv m.decimalUnits (Nat.pow 10 place) = m.decimalUnits / 10 ^ place + 1 := by
        unfold roundDiv
        dsimp only
        split
        · exact .inl rfl
        · exact .inr rfl
      rw [Nat.pow_eq] at hnear hfar hneighbours
      rcases hneighbours with heq | heq
      · rw [heq] at hnear hfar
        have hother : 2 * (m.decimalUnits / 10 ^ place) + 1 - m.decimalUnits / 10 ^ place =
            m.decimalUnits / 10 ^ place + 1 := by omega
        rw [hother] at hfar
        exact (readsBack_neighbour hcount).elim hnear hfar
      · rw [heq] at hnear hfar
        have hother : 2 * (m.decimalUnits / 10 ^ place) + 1 - (m.decimalUnits / 10 ^ place + 1) =
            m.decimalUnits / 10 ^ place := by omega
        rw [hother] at hfar
        exact (readsBack_neighbour hcount).elim hfar hnear

/-- A power is at most the power of another base with the exponent scaled by more than the logarithm. -/
theorem pow_le_pow_of_logarithm {first second num den : Nat} (hpos : 0 < second) (hden : den ≠ 0)
    (h : first ^ den ≤ second ^ num) (n : Nat) : first ^ n ≤ second ^ (n * num / den + 1) := by
  have hscaled : n * num ≤ (n * num / den + 1) * den :=
    Nat.le_of_lt ((Nat.div_lt_iff_lt_mul (Nat.pos_of_ne_zero hden)).mp (Nat.lt_succ_self _))
  apply (Nat.pow_le_pow_iff_left hden).mp
  calc (first ^ n) ^ den = (first ^ den) ^ n := Nat.pow_right_comm _ _ _
    _ ≤ (second ^ num) ^ n := Nat.pow_le_pow_left h n
    _ = second ^ (n * num) := by rw [← Nat.pow_mul, Nat.mul_comm]
    _ ≤ second ^ ((n * num / den + 1) * den) := Nat.pow_le_pow_right hpos hscaled
    _ = (second ^ (n * num / den + 1)) ^ den := Nat.pow_mul _ _ _

/-- Two to a power is at most ten to the same power times the decimal logarithm of two. -/
theorem two_pow_le_ten_pow (bits : Nat) : 2 ^ bits ≤ 10 ^ (bits * 30103 / 100000 + 1) :=
  pow_le_pow_of_logarithm (by omega) (by omega) (by decide +kernel) bits

/-- The grid that the search starts on is coarser than the size. -/
theorem decimalUnits_lt_ten_pow (m : Magnitude) :
    m.decimalUnits < 10 ^ (m.decimalUnits.log2 * 30103 / 100000 + 2) := by
  generalize m.decimalUnits = units
  have hpos : 0 < 10 ^ (units.log2 * 30103 / 100000 + 1) := Nat.pow_pos (by omega)
  calc units < 2 ^ (units.log2 + 1) := Nat.lt_log2_self
    _ = 2 * 2 ^ units.log2 := Nat.pow_succ'
    _ ≤ 2 * 10 ^ (units.log2 * 30103 / 100000 + 1) :=
        Nat.mul_le_mul_left 2 (two_pow_le_ten_pow units.log2)
    _ ≤ 10 * 10 ^ (units.log2 * 30103 / 100000 + 1) := Nat.mul_le_mul_right _ (by omega)
    _ = 10 ^ (units.log2 * 30103 / 100000 + 2) := Nat.pow_succ'.symm

/-- From twice the size on everything is rounded to more than the size. -/
theorem units_lt_nearestUnits {q : ℚ} (hpos : 0 < m.units) (h : 2 * (m.units : ℚ) ≤ q) :
    m.units < nearestUnits q := by
  have hpower : ((2 ^ (m.units.log2 + 1) : Nat) : ℚ) ≤ q := by
    have hself : 2 ^ (m.units.log2 + 1) ≤ 2 * m.units := by
      rw [Nat.pow_succ']
      exact Nat.mul_le_mul_left 2 (Nat.log2_self_le (by omega))
    calc ((2 ^ (m.units.log2 + 1) : Nat) : ℚ) ≤ ((2 * m.units : Nat) : ℚ) := Nat.cast_le.mpr hself
      _ = 2 * (m.units : ℚ) := by rw [Nat.cast_mul, Nat.cast_ofNat]
      _ ≤ q := h
  calc m.units < 2 ^ (m.units.log2 + 1) := Nat.lt_log2_self
    _ = nearestUnits ((2 ^ (m.units.log2 + 1) : Nat) : ℚ) := (nearestUnits_two_pow _).symm
    _ ≤ nearestUnits q := nearestUnits_mono hpower

/-- On a grid coarser than the one that the search starts on nothing reads back. -/
theorem readsBack_of_start_lt (hpos : 0 < m.units) {place : Nat}
    (h : m.decimalUnits.log2 * 30103 / 100000 + 2 < place) (count : Nat) :
    m.readsBack count place = false := by
  apply Bool.eq_false_iff.mpr
  intro hreads
  rw [readsBack_iff] at hreads
  rcases Nat.eq_zero_or_pos count with rfl | hcount
  · rw [decimalSteps_zero, nearestUnits_eq_zero (by norm_num)] at hreads
    omega
  · have hcoarse : 2 * m.decimalUnits ≤ count * 10 ^ place := by
      calc 2 * m.decimalUnits ≤ 10 * 10 ^ (m.decimalUnits.log2 * 30103 / 100000 + 2) :=
            Nat.mul_le_mul (by omega) (Nat.le_of_lt m.decimalUnits_lt_ten_pow)
        _ = 10 ^ (m.decimalUnits.log2 * 30103 / 100000 + 2 + 1) := Nat.pow_succ'.symm
        _ ≤ 10 ^ place := Nat.pow_le_pow_right (by omega) h
        _ ≤ count * 10 ^ place := Nat.le_mul_of_pos_left _ hcount
    have hsteps : 2 * (m.units : ℚ) ≤ decimalSteps count (place - 1074 : Int) := by
      calc 2 * (m.units : ℚ) = 2 * decimalSteps m.decimalUnits (-1074) := by
            rw [decimalSteps_decimalUnits]
        _ = decimalSteps (2 * m.decimalUnits) (-1074) := by
            rw [decimalSteps, decimalSteps, Nat.cast_mul, Nat.cast_ofNat, mul_assoc, mul_assoc,
              mul_assoc]
        _ ≤ decimalSteps (count * 10 ^ place) (-1074) := decimalSteps_mono hcoarse _
        _ = decimalSteps count (place - 1074 : Int) := decimalSteps_grid count place
    have := units_lt_nearestUnits hpos hsteps
    omega

end Magnitude

/-- A search finds something at a place above which there is nothing, or nothing at all. -/
theorem coarsest_cases {α : Type} (find? : Nat → Option α) (finest : α) (start : Nat) :
    (coarsest find? finest start = finest ∧ ∀ place, 0 < place → place ≤ start → find? place = none) ∨
      ∃ place, find? place = some (coarsest find? finest start) ∧
        ∀ coarser, place < coarser → coarser ≤ start → find? coarser = none := by
  induction start with
  | zero => exact .inl ⟨rfl, fun place hpos hle => by omega⟩
  | succ start ih =>
    rw [coarsest]
    split
    · next hsome => exact .inr ⟨start + 1, hsome, fun coarser hlt hle => by omega⟩
    · next hnone =>
      have hextend {coarser : Nat} (hle : coarser ≤ start + 1)
          (hrest : coarser ≤ start → find? coarser = none) : find? coarser = none := by
        rcases Nat.lt_or_eq_of_le hle with hlt | rfl
        · exact hrest (by omega)
        · exact hnone
      rcases ih with ⟨heq, hnothing⟩ | ⟨place, hplace, hnothing⟩
      · exact .inl ⟨heq, fun coarser hpos hle => hextend hle (hnothing coarser hpos)⟩
      · exact .inr ⟨place, hplace, fun coarser hlt hle => hextend hle (hnothing coarser hlt)⟩

namespace Magnitude

variable {m : Magnitude}

/-- The selected decimal reads back and lies on the coarsest grid with a point that does. -/
theorem shortest_coarsest (hpos : 0 < m.units) :
    ∃ place : Nat, m.shortest.exponent = (place - 1074 : Int) ∧
      nearestUnits (decimalSteps m.shortest.digits m.shortest.exponent) = m.units ∧
      ∀ coarser, place < coarser → ∀ count, m.readsBack count coarser = false := by
  have hnone {coarser : Nat}
      (h : coarser ≤ m.decimalUnits.log2 * 30103 / 100000 + 2 → m.neighbour? coarser = none)
      (count : Nat) : m.readsBack count coarser = false := by
    rcases Nat.lt_or_ge (m.decimalUnits.log2 * 30103 / 100000 + 2) coarser with hlt | hle
    · exact readsBack_of_start_lt hpos hlt count
    · exact readsBack_of_neighbour?_eq_none (h hle) count
  rw [shortest, shortestFrom]
  rcases coarsest_cases (fun place => (m.neighbour? place).map fun count =>
      (⟨count, place - 1074⟩ : Decimal)) ⟨m.decimalUnits, -1074⟩
      (m.decimalUnits.log2 * 30103 / 100000 + 2) with ⟨heq, hnothing⟩ | ⟨place, hplace, hnothing⟩
  · refine ⟨0, by rw [heq]; rfl, ?_, fun coarser hlt => hnone fun hle => ?_⟩
    · rw [heq, decimalSteps_decimalUnits]
      exact m.nearestUnits_units
    · exact Option.map_eq_none_iff.mp (hnothing coarser hlt hle)
  · obtain ⟨count, hcount, heq⟩ := Option.map_eq_some_iff.mp hplace
    refine ⟨place, by rw [← heq], ?_, fun coarser hlt => hnone fun hle => ?_⟩
    · rw [← heq]
      exact readsBack_iff.mp (readsBack_of_neighbour?_eq_some hcount)
    · exact Option.map_eq_none_iff.mp (hnothing coarser hlt hle)

/-- The selected decimal reads back. -/
theorem nearestUnits_shortest (hpos : 0 < m.units) :
    nearestUnits (decimalSteps m.shortest.digits m.shortest.exponent) = m.units := by
  obtain ⟨_, _, hreads, _⟩ := shortest_coarsest hpos
  exact hreads

/-- No decimal with a larger power of ten than the selected one reads back. -/
theorem nearestUnits_ne_of_exponent_lt (hpos : 0 < m.units) {exponent : Int}
    (h : m.shortest.exponent < exponent) (significand : Nat) :
    nearestUnits (decimalSteps significand exponent) ≠ m.units := by
  obtain ⟨place, hplace, _, hcoarser⟩ := shortest_coarsest hpos
  rw [hplace] at h
  intro hreads
  have hexponent : exponent = (((exponent + 1074).toNat : Nat) - 1074 : Int) := by omega
  rw [hexponent, ← readsBack_iff] at hreads
  rw [hcoarser _ (by omega)] at hreads
  cases hreads

/-- A decimal that reads back has no fewer digits than the selected one. Otherwise a power of ten would
lie between the two and read back as well. -/
theorem digits_shortest_lt (hpos : 0 < m.units) {significand digits : Nat} {exponent : Int}
    (hreads : nearestUnits (decimalSteps significand exponent) = m.units)
    (hdigits : 0 < digits) (hlt : significand < 10 ^ digits) : m.shortest.digits < 10 ^ digits := by
  apply Nat.lt_of_not_le
  intro hmore
  have hle : exponent ≤ m.shortest.exponent := Int.not_lt.mp fun hcoarser =>
    nearestUnits_ne_of_exponent_lt hpos hcoarser significand hreads
  have hbelow : decimalSteps significand exponent ≤ decimalSteps (10 ^ digits) m.shortest.exponent :=
    (decimalSteps_mono (Nat.le_of_lt hlt) exponent).trans
      (decimalSteps_mono_exponent (10 ^ digits) hle)
  have hpower : nearestUnits (decimalSteps (10 ^ digits) m.shortest.exponent) = m.units :=
    nearestUnits_eq_of_between hbelow (decimalSteps_mono hmore _) hreads
      (nearestUnits_shortest hpos)
  rw [← Nat.one_mul (10 ^ digits), decimalSteps_mul_pow] at hpower
  exact nearestUnits_ne_of_exponent_lt hpos (by omega) 1 hpower

/-- No decimal that reads back has fewer significant digits than the selected one. -/
theorem significance_shortest_le (hpos : 0 < m.units) {significand : Nat} {exponent : Int}
    (hreads : nearestUnits (decimalSteps significand exponent) = m.units) :
    significance m.shortest.digits ≤ significance significand := by
  have hsignificand : 0 < significand := by
    apply Nat.pos_of_ne_zero
    rintro rfl
    rw [decimalSteps_zero, nearestUnits_eq_zero (by norm_num)] at hreads
    omega
  obtain ⟨core, zeros, hcore, hlt, hdigits⟩ := exists_lt_pow_significance hsignificand
  rw [hcore, decimalSteps_mul_pow] at hreads
  exact significance_le_of_lt hdigits (digits_shortest_lt hpos hreads hdigits hlt)

end Magnitude

end Reckoner
