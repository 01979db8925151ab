import Reckoner.Decimal.Layout
import Reckoner.Proofs.Literal
import Reckoner.Proofs.ShortestDecimal

/-!
# Printed doubles

The text of a double is a numeral that denotes the double again. Both notations are a literal with or
without an exponent after it. They may add zeros at the end of the digits, which the power of ten makes
up for, so the number that is read is the shortest decimal of the double.
-/

namespace Reckoner

/-- The digits of a text as a number. -/
theorem ofDigits_map (digits : List Char) :
    Numeral.ofDigits (digits.map fun c => c.toNat - 48) = Nat.ofDigitChars 10 digits 0 :=
  List.foldl_map

/-- A written exponent: nothing at all, or a mark, a sign and digits. -/
inductive WritesExponent : List Char → Int → Prop
  | nothing : WritesExponent [] 0
  | digits {negative : Bool} {digits : List Char} (hdigits : ∀ c ∈ digits, c.isDigit = true)
      (hne : digits ≠ []) :
      WritesExponent ('e' :: (if negative then '-' else '+') :: digits)
        (if negative then -(Nat.ofDigitChars 10 digits 0 : Int) else Nat.ofDigitChars 10 digits 0)

namespace WritesExponent

variable {text : List Char} {exponent : Int}

/-- A written exponent ends the number before it. -/
theorem endsNumber (h : WritesExponent text exponent) : EndsNumber text := by
  cases h with
  | nothing => exact endsNumber_nil
  | digits hdigits hne =>
    intro c hc
    cases hc
    decide

/-- A written exponent is read as the exponent. -/
theorem exponent?_eq (h : WritesExponent text exponent) :
    Numeral.exponent? text = some exponent := by
  cases h with
  | nothing => rfl
  | @digits negative digits hdigits hne =>
    have hrun := digitRun_of_isDigit hdigits
    obtain ⟨c, rest, rfl⟩ := List.exists_cons_of_ne_nil hne
    cases negative <;> simp [Numeral.exponent?, Numeral.splitSign, hrun, ← ofDigits_map]

end WritesExponent

/-- The digits of a number are digits. -/
theorem isDigit_of_mem_toDigits {n : Nat} : ∀ c ∈ Nat.toDigits 10 n, c.isDigit = true :=
  fun _ hc => Nat.isDigit_of_mem_toDigits (by omega) (by omega) hc

namespace Decimal

/-- An exponent is written with digits. -/
theorem isDigit_of_mem_twoDigits {n : Nat} : ∀ c ∈ twoDigits n, c.isDigit = true := by
  intro c hc
  unfold twoDigits at hc
  split at hc
  · rcases List.mem_cons.mp hc with rfl | hc
    · rfl
    · exact isDigit_of_mem_toDigits c hc
  · exact isDigit_of_mem_toDigits c hc

/-- The digits of an exponent write the exponent. -/
theorem ofDigitChars_twoDigits (n : Nat) : Nat.ofDigitChars 10 (twoDigits n) 0 = n := by
  unfold twoDigits
  split
  · rw [Nat.ofDigitChars_cons]
    exact Nat.ofDigitChars_ten_toDigits
  · exact Nat.ofDigitChars_ten_toDigits

theorem twoDigits_ne_nil (n : Nat) : twoDigits n ≠ [] := by
  unfold twoDigits
  split
  · exact List.cons_ne_nil _ _
  · exact Nat.toDigits_ne_nil

end Decimal

/-- A literal denotes the digits on both sides of its point. -/
theorem Literal.ofDigits_digits (l : Literal) :
    Numeral.ofDigits l.digits = Nat.ofDigitChars 10 (l.whole ++ l.fraction.getD []) 0 :=
  ofDigits_map _

namespace Decimal

variable {digits : List Char}

/-- In positional notation digits are written as a literal, with zeros at the end if the point comes
after them. -/
theorem exists_literal_positional (hdigits : ∀ c ∈ digits, c.isDigit = true) (hne : digits ≠ [])
    (point : Int) :
    ∃ (l : Literal) (zeros : Nat), positional digits point = l.chars ∧
      Numeral.ofDigits l.digits = Nat.ofDigitChars 10 digits 0 * 10 ^ zeros ∧
      -((l.fraction.getD []).length : Int) = point - digits.length - zeros := by
  have hzeros (count : Nat) : ∀ c ∈ List.replicate count '0', c.isDigit = true := by
    intro c hc
    rw [List.eq_of_mem_replicate hc]
    rfl
  unfold positional
  split
  · -- all digits come after the point
    let l : Literal := {
      whole := ['0']
      fraction := some (List.replicate point.natAbs '0' ++ digits)
      isDigit_of_mem := by
        simp only [Option.getD_some, List.forall_mem_append, List.forall_mem_singleton]
        exact ⟨rfl, hzeros _, hdigits⟩
      ne_nil := by simp }
    refine ⟨l, 0, rfl, ?_, ?_⟩
    · rw [l.ofDigits_digits]
      simp [l, Nat.ofDigitChars_cons, Nat.ofDigitChars_append, Nat.ofDigitChars_replicate_zero]
    · simp only [l, Option.getD_some, List.length_append, List.length_replicate]
      omega
  · split
    · -- the point comes between the digits
      let l : Literal := {
        whole := digits.take point.toNat
        fraction := some (digits.drop point.toNat)
        isDigit_of_mem := by
          rw [Option.getD_some, List.take_append_drop]
          exact hdigits
        ne_nil := by
          rw [Option.getD_some, List.take_append_drop]
          exact hne }
      refine ⟨l, 0, rfl, ?_, ?_⟩
      · rw [l.ofDigits_digits]
        simp [l]
      · simp only [l, Option.getD_some, List.length_drop]
        omega
    · -- the point comes after the digits and some zeros
      let l : Literal := {
        whole := digits ++ List.replicate (point.toNat - digits.length) '0'
        fraction := some ['0']
        isDigit_of_mem := by
          simp only [Option.getD_some, List.forall_mem_append, List.forall_mem_singleton]
          exact ⟨⟨hdigits, hzeros _⟩, rfl⟩
        ne_nil := by simp }
      refine ⟨l, point.toNat - digits.length + 1, by simp [l, Literal.chars], ?_, ?_⟩
      · rw [l.ofDigits_digits]
        simp [l, Nat.ofDigitChars_cons, Nat.ofDigitChars_append, Nat.ofDigitChars_replicate_zero]
        ring
      · simp only [l, Option.getD_some, List.length_singleton]
        omega

/-- An exponent is written with its sign and its digits. -/
theorem writesExponent (exponent : Int) :
    WritesExponent ('e' :: (if exponent < 0 then '-' else '+') :: twoDigits exponent.natAbs)
      exponent := by
  have hdigits := isDigit_of_mem_twoDigits (n := exponent.natAbs)
  rcases lt_or_ge exponent 0 with hneg | hpos
  · have hwrites := @WritesExponent.digits true _ hdigits (twoDigits_ne_nil _)
    rw [if_pos rfl, if_pos rfl, ofDigitChars_twoDigits] at hwrites
    rw [if_pos hneg]
    have hself : -(exponent.natAbs : Int) = exponent := by omega
    rwa [hself] at hwrites
  · have hwrites := @WritesExponent.digits false _ hdigits (twoDigits_ne_nil _)
    rw [if_neg Bool.false_ne_true, if_neg Bool.false_ne_true, ofDigitChars_twoDigits] at hwrites
    rw [if_neg (Int.not_lt.mpr hpos)]
    have hself : (exponent.natAbs : Int) = exponent := by omega
    rwa [hself] at hwrites

/-- In scientific notation digits are written as a literal with a written exponent. -/
theorem exists_literal_scientific (hdigits : ∀ c ∈ digits, c.isDigit = true) (hne : digits ≠ [])
    (exponent : Int) :
    ∃ (l : Literal) (tail : List Char), scientific digits exponent = l.chars ++ tail ∧
      WritesExponent tail exponent ∧
      Numeral.ofDigits l.digits = Nat.ofDigitChars 10 digits 0 ∧
      ((l.fraction.getD []).length : Int) = digits.length - 1 := by
  obtain ⟨first, rest, rfl⟩ := List.exists_cons_of_ne_nil hne
  cases rest with
  | nil =>
    let l : Literal := {
      whole := [first]
      fraction := none
      isDigit_of_mem := by simpa using hdigits
      ne_nil := by simp }
    exact ⟨l, _, rfl, writesExponent exponent, l.ofDigits_digits, rfl⟩
  | cons second rest =>
    let l : Literal := {
      whole := [first]
      fraction := some (second :: rest)
      isDigit_of_mem := hdigits
      ne_nil := hne }
    refine ⟨l, _, rfl, writesExponent exponent, l.ofDigits_digits, ?_⟩
    simp only [l, Option.getD_some, List.length_cons]
    omega

/-- The text of a decimal is a literal, with or without an exponent, that writes the decimal up to
zeros at the end of its digits. -/
theorem exists_literal_chars (d : Decimal) :
    ∃ (l : Literal) (tail : List Char) (shift : Int) (zeros : Nat), d.chars = l.chars ++ tail ∧
      WritesExponent tail shift ∧ Numeral.ofDigits l.digits = d.digits * 10 ^ zeros ∧
      shift - ((l.fraction.getD []).length : Int) = d.exponent - zeros := by
  have hvalue : Nat.ofDigitChars 10 (Nat.toDigits 10 d.digits) 0 = d.digits :=
    Nat.ofDigitChars_ten_toDigits
  unfold chars
  dsimp only
  split
  · obtain ⟨l, zeros, hchars, hdigits, hplaces⟩ := exists_literal_positional
      isDigit_of_mem_toDigits Nat.toDigits_ne_nil ((Nat.toDigits 10 d.digits).length + d.exponent)
    rw [hvalue] at hdigits
    exact ⟨l, [], 0, zeros, by rw [hchars, List.append_nil], .nothing, hdigits, by omega⟩
  · obtain ⟨l, tail, hchars, htail, hdigits, hplaces⟩ := exists_literal_scientific
      isDigit_of_mem_toDigits Nat.toDigits_ne_nil
      ((Nat.toDigits 10 d.digits).length + d.exponent - 1)
    rw [hvalue] at hdigits
    exact ⟨l, tail, _, 0, hchars, htail, by rw [hdigits, Nat.pow_zero, Nat.mul_one], by omega⟩

end Decimal

/-- Whether a character may stand in the text of a double. -/
def isPrinted (c : Char) : Bool :=
  c.isDigit || ['+', '-', '.', 'a', 'e', 'f', 'i', 'n'].contains c

/-- The characters of numbers are printed. -/
theorem isPrinted_of_isNumeric {c : Char} (h : isNumeric c = true) : isPrinted c = true := by
  rcases Bool.or_eq_true_iff.mp h with hdigit | hpoint
  · rw [isPrinted, hdigit, Bool.true_or]
  · rw [of_decide_eq_true hpoint]
    rfl

/-- A printed character is no blank. -/
theorem isBlank_of_isPrinted {c : Char} (h : isPrinted c = true) : Text.isBlank c = false := by
  rcases Bool.or_eq_true_iff.mp h with hdigit | hmem
  · have := toNat_of_isDigit hdigit
    exact isBlank_of_toNat (by omega)
  · have hall : ['+', '-', '.', 'a', 'e', 'f', 'i', 'n'].all (!Text.isBlank ·) = true := by decide
    simpa using List.all_eq_true.mp hall c (List.contains_iff_mem.mp hmem)

/-- A written exponent is printed. -/
theorem WritesExponent.isPrinted_of_mem {text : List Char} {exponent : Int}
    (h : WritesExponent text exponent) : ∀ c ∈ text, isPrinted c = true := by
  cases h with
  | nothing => exact fun _ hc => nomatch hc
  | @digits negative digits hdigits hne =>
    intro c hc
    rcases List.mem_cons.mp hc with rfl | hc
    · rfl
    · rcases List.mem_cons.mp hc with rfl | hc
      · cases negative <;> rfl
      · rw [isPrinted, hdigits c hc, Bool.true_or]

/-- The sign that is printed. -/
def Sign.ofNegative (negative : Bool) : Sign :=
  if negative then .minus else .none

theorem Sign.isNegative_ofNegative (negative : Bool) :
    (Sign.ofNegative negative).isNegative = negative := by
  cases negative <;> rfl

theorem Sign.chars_ofNegative (negative : Bool) :
    (Sign.ofNegative negative).chars = Binary64.signChars negative := by
  cases negative <;> rfl

theorem isPrinted_of_mem_signChars {negative : Bool} :
    ∀ c ∈ Binary64.signChars negative, isPrinted c = true := by
  apply List.all_eq_true.mp
  cases negative <;> decide

/-- The text of a decimal is printed. -/
theorem Decimal.isPrinted_of_mem_chars (d : Decimal) : ∀ c ∈ d.chars, isPrinted c = true := by
  obtain ⟨l, tail, shift, zeros, hchars, htail, _⟩ := d.exists_literal_chars
  rw [hchars]
  intro c hc
  rcases List.mem_append.mp hc with hliteral | hexponent
  · exact isPrinted_of_isNumeric (l.isNumeric_of_mem c hliteral)
  · exact htail.isPrinted_of_mem c hexponent

/-- The text of a decimal reads as the decimal, up to zeros at the end of its digits. -/
theorem Decimal.exists_ofTrimmed?_chars (d : Decimal) (negative : Bool) :
    ∃ zeros : Nat, Numeral.ofTrimmed? (Binary64.signChars negative ++ d.chars) =
      some (.decimal negative (d.digits * 10 ^ zeros) (d.exponent - zeros)) := by
  obtain ⟨l, tail, shift, zeros, hchars, htail, hdigits, hplaces⟩ := d.exists_literal_chars
  have hread := l.ofTrimmed?_chars_append (Sign.ofNegative negative) htail.endsNumber
  rw [Sign.chars_ofNegative, Sign.isNegative_ofNegative, List.append_assoc, ← hchars,
    htail.exponent?_eq, Option.map_some, hdigits, hplaces] at hread
  exact ⟨zeros, hread⟩

namespace Binary64

/-- The text of a double is printed. -/
theorem isPrinted_of_mem_chars (x : Binary64) : ∀ c ∈ x.chars, isPrinted c = true := by
  cases x with
  | nan => exact List.all_eq_true.mp (by decide)
  | infinite negative =>
    apply List.all_eq_true.mp
    cases negative <;> decide
  | finite negative m =>
    intro c hc
    rcases List.mem_append.mp hc with hsign | hsize
    · exact isPrinted_of_mem_signChars c hsign
    · unfold Magnitude.chars at hsize
      split at hsize
      · have hzero : ['0', '.', '0'].all isPrinted = true := by decide
        exact List.all_eq_true.mp hzero c hsize
      · exact m.shortest.isPrinted_of_mem_chars c hsize

/-- The text of a double is not trimmed when it is read. -/
theorem ofString?_text_eq (x : Binary64) :
    Numeral.ofString? x.text = Numeral.ofTrimmed? x.chars := by
  rw [Numeral.ofString?, text, String.toList_ofList, trim_of_forall_not_isBlank fun c hc =>
    isBlank_of_isPrinted (x.isPrinted_of_mem_chars c hc)]

/-- The text of a positive size reads as its shortest decimal, up to zeros at the end of the digits. -/
theorem exists_ofString?_text {negative : Bool} {m : Magnitude} (hpos : 0 < m.units) :
    ∃ zeros : Nat, Numeral.ofString? (text (.finite negative m)) =
      some (.decimal negative (m.shortest.digits * 10 ^ zeros) (m.shortest.exponent - zeros)) := by
  rw [ofString?_text_eq, chars, Magnitude.chars, if_neg (by omega)]
  exact m.shortest.exists_ofTrimmed?_chars negative

/-- The text of a double denotes the double. -/
theorem ofString?_text (x : Binary64) : ofString? x.text = some x := by
  cases x with
  | nan => decide +kernel
  | infinite negative => cases negative <;> decide +kernel
  | finite negative m =>
    rcases Nat.eq_zero_or_pos m.units with hzero | hpos
    · have hm : m = .zero := Magnitude.ext hzero
      rw [hm]
      cases negative <;> decide +kernel
    · obtain ⟨zeros, hread⟩ := @exists_ofString?_text negative m hpos
      rw [ofString?, hread, Option.map_some, ofNumeral]
      apply congrArg some
      apply ofDecimal_eq_finite_iff.mpr
      rw [decimalSteps_mul_pow, Int.sub_add_cancel]
      exact ⟨rfl, m.nearestUnits_shortest hpos⟩

end Binary64

/-- How many significant digits the text of a number has; zeros at either end do not count, nor does the
power of ten. -/
def significantDigits (text : String) : Nat :=
  match Numeral.ofString? text with
  | some (.decimal _ significand _) => significance significand
  | _ => 0

/-- A text that denotes a finite double is a decimal, and its number of steps is nearest to the size. -/
theorem exists_decimal_of_ofString?_finite {text : String} {negative : Bool} {m : Magnitude}
    (h : Binary64.ofString? text = some (.finite negative m)) :
    ∃ significand exponent, Numeral.ofString? text = some (.decimal negative significand exponent) ∧
      nearestUnits (decimalSteps significand exponent) = m.units := by
  obtain ⟨numeral, hread, hvalue⟩ := Option.map_eq_some_iff.mp h
  cases numeral with
  | nan => cases hvalue
  | infinite _ => cases hvalue
  | decimal negative' significand exponent =>
    obtain ⟨rfl, hunits⟩ := ofDecimal_eq_finite_iff.mp hvalue
    exact ⟨significand, exponent, hread, hunits⟩

/-- No text that denotes a finite double has fewer significant digits than the double's own text. -/
theorem significantDigits_text_le {negative : Bool} {m : Magnitude} {text : String}
    (h : Binary64.ofString? text = some (.finite negative m)) :
    significantDigits (Binary64.text (.finite negative m)) ≤ significantDigits text := by
  obtain ⟨significand, exponent, hread, hunits⟩ := exists_decimal_of_ofString?_finite h
  rcases Nat.eq_zero_or_pos m.units with hzero | hpos
  · have hm : m = .zero := Magnitude.ext hzero
    have hnone : significantDigits (Binary64.text (.finite negative m)) = 0 := by
      rw [hm]
      cases negative <;> decide +kernel
    rw [hnone]
    exact Nat.zero_le _
  · obtain ⟨zeros, hprinted⟩ := @Binary64.exists_ofString?_text negative m hpos
    rw [significantDigits, hprinted, significantDigits, hread]
    dsimp only
    rw [significance_mul_pow]
    exact m.significance_shortest_le hpos hunits

/-- A number is displayed by the text of its value. -/
theorem Term.display_eq_text {t : Term} {x : Binary64} (hkind : t.kind = .number)
    (hvalue : t.value = some x) : t.display = x.text := by
  rw [Term.display, Term.operand?_eq_some_iff.mpr ⟨hkind, hvalue⟩]

/-- Reading the display of a number gives its value back, and displaying that gives the same text. For
a finite value no text that reads as it has fewer significant digits than the display. -/
theorem value_number_display (t : Term) (x : Binary64) (hkind : t.kind = .number)
    (hvalue : t.value = some x) :
    (Term.number t.display).value = some x ∧
      (Term.number t.display).display = t.display ∧
      ∀ negative m, x = .finite negative m → ∀ text, (Term.number text).value = some x →
        significantDigits t.display ≤ significantDigits text := by
  have hdisplay := Term.display_eq_text hkind hvalue
  have hread : (Term.number t.display).value = some x := by
    rw [hdisplay]
    exact x.ofString?_text
  refine ⟨hread, ?_, ?_⟩
  · rw [Term.display_eq_text rfl hread, hdisplay]
  · rintro negative m rfl text htext
    rw [hdisplay]
    exact significantDigits_text_le htext

/-- The smallest double has one significant digit, however many it was written with. -/
theorem value_number_display_smallest :
    (Term.number "4.9406564584124654e-324").kind = .number ∧
      (Term.number "4.9406564584124654e-324").value = some (.ofBits 1) ∧
      (Term.number "4.9406564584124654e-324").display = "5e-324" ∧
      (Term.number "5e-324").value = some (.ofBits 1) ∧
      significantDigits "5e-324" ≤ significantDigits "4.9406564584124654e-324" := by
  have hvalue : (Term.number "4.9406564584124654e-324").value = some (.ofBits 1) := by
    decide +kernel
  have hdisplay : (Term.number "4.9406564584124654e-324").display = "5e-324" := by
    decide +kernel
  obtain ⟨hread, _, hshortest⟩ := value_number_display _ _ rfl hvalue
  rw [hdisplay] at hread hshortest
  exact ⟨rfl, hvalue, hdisplay, hread, hshortest _ _ rfl _ hvalue⟩

end Reckoner
