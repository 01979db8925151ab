import Reckoner.Proofs.Faults
import Reckoner.Proofs.Printing
import Reckoner.Proofs.Runs

/-!
# The shape of numbers

A text of signs, digits and points denotes a double exactly if it is a literal with at most one sign.
Numerals have many other spellings, with exponents, words, underscores, blanks or the digits of other
scripts, but none of these is written with such characters only. A scan makes no number of anything
else, so it reads a literal or refuses the text.
-/

namespace Reckoner

/-- Whether a text is a literal with or without a sign. -/
def IsLiteral (text : String) : Prop :=
  ∃ (l : Literal) (sign : Sign), text = l.text sign

/-- Up to the nine only the decimal digits have the value of a digit. -/
theorem isDigit_of_digitValue? {c : Char} {value : Nat} (hcode : c.toNat ≤ 57)
    (h : Text.digitValue? c = some value) : c.isDigit = true := by
  obtain ⟨first, hfirst, _⟩ := Option.map_eq_some_iff.mp h
  have hmem := List.mem_of_find?_eq_some hfirst
  have hrange := List.find?_some hfirst
  have hzeros : ∀ first ∈ Text.digitZeros, first = 48 ∨ 57 < first := by decide
  simp only [Bool.and_eq_true, decide_eq_true_eq] at hrange
  have hdigit : 48 ≤ c.toNat ∧ c.toNat ≤ 57 := by
    rcases hzeros first hmem with rfl | hlarge <;> omega
  exact Char.isDigit_iff_toNat.mpr hdigit

/-- A sign, digit or point has a code between those of the plus and of the nine. -/
theorem toNat_of_isSign_or_isNumeric {c : Char} (h : isSign c = true ∨ isNumeric c = true) :
    43 ≤ c.toNat ∧ c.toNat ≤ 57 := by
  rcases h with hsign | hnumeric
  · rcases Bool.or_eq_true_iff.mp hsign with hplus | hminus
    · rw [of_decide_eq_true hplus]
      decide
    · rw [of_decide_eq_true hminus]
      decide
  · have := toNat_of_isNumeric hnumeric
    omega

/-- What is read as digits is digits, where nothing has a code above that of the nine. -/
theorem exists_digits_of_digitRunAfter {text : List Char} (htext : ∀ c ∈ text, c.toNat ≤ 57)
    (joinable : Bool) :
    ∃ digits rest, text = digits ++ rest ∧ (∀ c ∈ digits, c.isDigit = true) ∧
      Numeral.digitRunAfter joinable text = (digits.map fun c => c.toNat - 48, rest) := by
  induction text generalizing joinable with
  | nil => exact ⟨[], [], rfl, fun _ h => (nomatch h), rfl⟩
  | cons c text ih =>
    obtain ⟨digits, rest, hsplit, hdigits, hrun⟩ :=
      ih (fun d hd => htext d (List.mem_cons_of_mem c hd)) true
    have hcode := htext c List.mem_cons_self
    cases hvalue : Text.digitValue? c with
    | some value =>
      have hdigit := isDigit_of_digitValue? hcode hvalue
      refine ⟨c :: digits, rest, by rw [hsplit, List.cons_append],
        List.forall_mem_cons.mpr ⟨hdigit, hdigits⟩, ?_⟩
      rw [digitValue?_of_isDigit hdigit] at hvalue
      cases hvalue
      simp [Numeral.digitRunAfter, digitValue?_of_isDigit hdigit, hrun]
    | none =>
      have hjoin : c ≠ '_' := by
        rintro rfl
        exact absurd hcode (by decide)
      exact ⟨[], c :: text, rfl, fun _ h => (nomatch h), by
        simp [Numeral.digitRunAfter, hvalue, hjoin]⟩

/-- An exponent needs its mark, which has a code above that of the nine. -/
theorem eq_nil_of_exponent? {text : List Char} (htext : ∀ c ∈ text, c.toNat ≤ 57) {exponent : Int}
    (h : Numeral.exponent? text = some exponent) : text = [] := by
  cases text with
  | nil => rfl
  | cons c rest =>
    have hcode := htext c List.mem_cons_self
    have hmark : ¬ (c = 'e' ∨ c = 'E') := by
      rintro (rfl | rfl) <;> exact absurd hcode (by decide)
    rw [Numeral.exponent?, if_neg hmark] at h
    cases h

/-- An unsigned numeral without codes above that of the nine is a literal. -/
theorem exists_literal_of_unsigned? {text : List Char} (htext : ∀ c ∈ text, c.toNat ≤ 57)
    {decimal : Nat × Int} (h : Numeral.unsigned? text = some decimal) :
    ∃ l : Literal, text = l.chars := by
  obtain ⟨whole, afterWhole, rfl, hwhole, hwholeRun⟩ :=
    exists_digits_of_digitRunAfter htext false
  have hafterWhole := (List.forall_mem_append.mp htext).2
  unfold Numeral.unsigned? Numeral.digitRun Numeral.fractionRun at h
  rw [hwholeRun] at h
  dsimp only at h
  split at h
  · -- a point comes after the first digits
    next afterPoint =>
    obtain ⟨fraction, rest, rfl, hfraction, hfractionRun⟩ :=
      exists_digits_of_digitRunAfter (List.forall_mem_cons.mp hafterWhole).2 false
    unfold Numeral.digitRun at h
    rw [hfractionRun] at h
    dsimp only at h
    split at h
    · cases h
    · next hne =>
      obtain ⟨exponent, hexponent, _⟩ := Option.map_eq_some_iff.mp h
      have hrest := (List.forall_mem_append.mp (List.forall_mem_cons.mp hafterWhole).2).2
      obtain rfl := eq_nil_of_exponent? hrest hexponent
      let l : Literal := {
        whole := whole
        fraction := some fraction
        isDigit_of_mem := List.forall_mem_append.mpr ⟨hwhole, hfraction⟩
        ne_nil := by simpa using hne }
      exact ⟨l, by rw [List.append_nil]; rfl⟩
  · -- there is no point
    split at h
    · cases h
    · next hne =>
      obtain ⟨exponent, hexponent, _⟩ := Option.map_eq_some_iff.mp h
      obtain rfl := eq_nil_of_exponent? hafterWhole hexponent
      let l : Literal := {
        whole := whole
        fraction := none
        isDigit_of_mem := by simpa using hwhole
        ne_nil := by simpa using hne }
      exact ⟨l, List.append_nil _⟩

/-- Without codes above that of the nine nothing is turned into a word with a letter in it. -/
theorem map_toLower_ne {text word : List Char} {letter : Char} (htext : ∀ c ∈ text, c.toNat ≤ 57)
    (hmem : letter ∈ word) (hletter : 57 < letter.toNat) : text.map Char.toLower ≠ word := by
  rintro rfl
  obtain ⟨c, hc, rfl⟩ := List.mem_map.mp hmem
  rw [toLower_of_toNat_le (htext c hc)] at hletter
  have := htext c hc
  omega

/-- A sign that is split off was there. -/
theorem exists_sign_of_splitSign (text : List Char) :
    ∃ sign : Sign, sign.isNegative = (Numeral.splitSign text).1 ∧
      text = sign.chars ++ (Numeral.splitSign text).2 := by
  unfold Numeral.splitSign
  split
  · exact ⟨.minus, rfl, rfl⟩
  · exact ⟨.plus, rfl, rfl⟩
  · exact ⟨.none, rfl, rfl⟩

/-- A text of signs, digits and points denotes a double only if it is a literal. -/
theorem isLiteral_of_ofString? {text : String}
    (htext : ∀ c ∈ text.toList, isSign c = true ∨ isNumeric c = true) {x : Binary64}
    (h : Binary64.ofString? text = some x) : IsLiteral text := by
  have hcode := fun c hc => toNat_of_isSign_or_isNumeric (htext c hc)
  obtain ⟨numeral, hread, _⟩ := Option.map_eq_some_iff.mp h
  rw [Numeral.ofString?, trim_of_forall_not_isBlank fun c hc => isBlank_of_toNat (hcode c hc)] at hread
  obtain ⟨sign, -, hsign⟩ := exists_sign_of_splitSign text.toList
  have hunsigned : ∀ c ∈ (Numeral.splitSign text.toList).2, c.toNat ≤ 57 := fun c hc =>
    (hcode c (hsign ▸ List.mem_append_right _ hc)).2
  unfold Numeral.ofTrimmed? at hread
  generalize Numeral.splitSign text.toList = parts at hread hsign hunsigned
  obtain ⟨negative, unsigned⟩ := parts
  dsimp only at hread hsign hunsigned
  have hword {word : List Char} (hmem : 'n' ∈ word) : unsigned.map Char.toLower ≠ word :=
    map_toLower_ne hunsigned hmem (by decide)
  rw [if_neg (not_or.mpr ⟨hword (by decide), hword (by decide)⟩), if_neg (hword (by decide))] at hread
  obtain ⟨decimal, hdecimal, _⟩ := Option.map_eq_some_iff.mp hread
  obtain ⟨l, rfl⟩ := exists_literal_of_unsigned? hunsigned hdecimal
  refine ⟨l, sign, ?_⟩
  rw [Literal.text, ← hsign, String.ofList_toList]

/-- The sign bit of a double. -/
def Binary64.signBit (x : Binary64) : Bool :=
  1 <<< 63 ≤ x.toBits.toNat

/-- The sign bit of a finite double is its sign. -/
theorem signBit_finite (negative : Bool) (m : Magnitude) :
    (Binary64.finite negative m).signBit = negative := by
  rw [Binary64.signBit, Binary64.toNat_toBits_finite]
  have hrank := m.rank_lt
  cases negative
  · exact decide_eq_false (by simp only [Bool.toNat_false]; omega)
  · exact decide_eq_true (by simp only [Bool.toNat_true]; omega)

/-- A decimal denotes a double of its sign. -/
theorem ofDecimal_cases (negative : Bool) (significand : Nat) (exponent : Int) :
    (∃ m, Binary64.ofDecimal negative significand exponent = .finite negative m) ∨
      Binary64.ofDecimal negative significand exponent = .infinite negative := by
  unfold Binary64.ofDecimal Binary64.round
  dsimp only
  split_ifs
  · exact .inl ⟨_, rfl⟩
  · exact .inr rfl
  · exact .inl ⟨_, rfl⟩
  · exact .inl ⟨_, rfl⟩
  · exact .inr rfl

/-- The sign bit of a decimal's double is set exactly under a minus. -/
theorem signBit_ofDecimal (negative : Bool) (significand : Nat) (exponent : Int) :
    (Binary64.ofDecimal negative significand exponent).signBit = negative := by
  rcases ofDecimal_cases negative significand exponent with ⟨m, hvalue⟩ | hvalue
  · rw [hvalue]
    exact signBit_finite negative m
  · rw [hvalue]
    cases negative <;> decide

/-- A literal is no NaN, and its sign bit is set exactly under a minus. -/
theorem Literal.signBit_value (l : Literal) (sign : Sign) :
    l.value sign ≠ .nan ∧ (l.value sign).signBit = sign.isNegative := by
  refine ⟨?_, signBit_ofDecimal _ _ _⟩
  unfold Literal.value
  rcases ofDecimal_cases sign.isNegative (Numeral.ofDigits l.digits)
    (-((l.fraction.getD []).length : Int)) with ⟨m, hvalue⟩ | hvalue
  · rw [hvalue]
    exact Binary64.noConfusion
  · rw [hvalue]
    exact Binary64.noConfusion

/-- The text of a literal starts with a minus exactly if that is its sign. -/
theorem Literal.head?_text (l : Literal) (sign : Sign) :
    (l.text sign).toList.head? = some '-' ↔ sign.isNegative = true := by
  rw [Literal.text, String.toList_ofList]
  cases sign with
  | minus => exact iff_of_true rfl rfl
  | plus => exact iff_of_false (by simp [Sign.chars]) (by decide)
  | none =>
    obtain ⟨c, rest, hchars, hc⟩ := l.exists_chars_eq_cons
    refine iff_of_false (fun hhead => ?_) (by decide)
    rw [hchars] at hhead
    cases hhead
    exact absurd hc (by decide)

/-- The characters that expressions are made of. -/
def alphabet : List Char :=
  "0123456789.+-*/%^()".toList

/-- Digits and points belong to the alphabet. -/
theorem mem_alphabet_of_isNumeric {c : Char} (h : isNumeric c = true) : c ∈ alphabet := by
  have hdigits : ∀ code < 58, 48 ≤ code → Char.ofNat code ∈ alphabet := by decide +kernel
  rcases Bool.or_eq_true_iff.mp h with hdigit | hpoint
  · obtain ⟨hlow, hhigh⟩ := toNat_of_isDigit hdigit
    rw [← Char.ofNat_toNat c]
    exact hdigits c.toNat (by omega) hlow
  · rw [of_decide_eq_true hpoint]
    decide +kernel

/-- Signs belong to the alphabet. -/
theorem mem_alphabet_of_isSign {c : Char} (h : isSign c = true) : c ∈ alphabet := by
  rcases Bool.or_eq_true_iff.mp h with hplus | hminus
  · rw [of_decide_eq_true hplus]
    decide +kernel
  · rw [of_decide_eq_true hminus]
    decide +kernel

/-- A character outside the alphabet is scanned into an unknown term. -/
theorem unknown_mem_scan {text : String} {c : Char} (hc : c ∈ text.toList) (hout : c ∉ alphabet) :
    Term.unknown (.singleton c) ∈ scan text := by
  have hnumeric := Bool.eq_false_iff.mpr (mt mem_alphabet_of_isNumeric hout)
  have hsign := Bool.eq_false_iff.mpr (mt mem_alphabet_of_isSign hout)
  have hmarks : marks.all alphabet.contains = true := by decide +kernel
  have hmark : c ∉ marks := fun hc =>
    hout (List.contains_iff_mem.mp (List.all_eq_true.mp hmarks c hc))
  obtain ⟨first, rest, hsplit⟩ := List.append_of_mem hc
  rw [scan, hsplit, scanFrom_append_mark hnumeric hsign, ofChar_of_notMem_marks hmark]
  exact List.mem_append_right _ List.mem_cons_self

/-- A number of a scan has a value exactly if it is a literal. -/
theorem value_ne_none_iff_of_mem_scan {text : String} {t : Term} (ht : t ∈ scan text)
    (hkind : t.kind = .number) : t.value ≠ none ↔ IsLiteral t.text := by
  obtain ⟨run, after, hrun, _, _, rfl⟩ := exists_isRun_of_mem_scan ht hkind
  constructor
  · intro hvalue
    obtain ⟨x, hx⟩ := Option.ne_none_iff_exists'.mp hvalue
    apply isLiteral_of_ofString? _ hx
    rw [String.toList_ofList]
    exact hrun.isSign_or_isNumeric
  · rintro ⟨l, sign, htext⟩ hnone
    change String.ofList run = l.text sign at htext
    rw [Term.number, htext, l.ofString?_text] at hnone
    cases hnone

/-- The value of a number of a scan is no NaN, and its sign bit is set exactly under a minus. -/
theorem signBit_of_mem_scan {text : String} {t : Term} (ht : t ∈ scan text) (hkind : t.kind = .number)
    {x : Binary64} (hvalue : t.value = some x) :
    x ≠ .nan ∧ (x.signBit = true ↔ t.text.toList.head? = some '-') := by
  have hsome : t.value ≠ none := by
    rw [hvalue]
    exact Option.some_ne_none x
  obtain ⟨l, sign, htext⟩ := (value_ne_none_iff_of_mem_scan ht hkind).mp hsome
  obtain ⟨run, after, _, _, _, rfl⟩ := exists_isRun_of_mem_scan ht hkind
  change String.ofList run = l.text sign at htext
  rw [Term.number, htext, l.ofString?_text] at hvalue
  cases hvalue
  obtain ⟨hnan, hsign⟩ := l.signBit_value sign
  rw [hsign, Term.number, htext, l.head?_text]
  exact ⟨hnan, Iff.rfl⟩

/-- A text without objection is made of the alphabet, and its numbers are literals. -/
theorem isLiteral_of_objection?_eq_none {strict : Bool} {text : String}
    (hvalid : objection? strict (scan text) = none) :
    (∀ c ∈ text.toList, c ∈ alphabet) ∧ ∀ t ∈ scan text, t.kind = .number → IsLiteral t.text := by
  have hadmissible := (objection?_eq_none_iff.mp hvalid).1
  refine ⟨fun c hc => Classical.byContradiction fun hout => ?_, fun t ht hkind => ?_⟩
  · exact kind_ne_unknown_of_admissible (hadmissible _ (unknown_mem_scan hc hout)) rfl
  · obtain ⟨x, hx⟩ := exists_operand?_of_admissible (hadmissible t ht) hkind
    apply (value_ne_none_iff_of_mem_scan ht hkind).mp
    rw [(Term.operand?_eq_some_iff.mp hx).2]
    exact Option.some_ne_none x

/-- Every number of a scan is written as signs, then digits and points, at least one character and not
a minus alone. It has a value exactly if it is a literal with at most one sign; the value is no NaN, and
its sign bit is set exactly if the text starts with a minus. So no other spelling of a double is the
text of a number, and a text with a character outside the alphabet, or with a number of another shape,
is plainly invalid. -/
theorem numbers_of_scan (text : String) :
    (∀ t ∈ scan text, t.kind = .number →
        t.text ≠ "" ∧ t.text ≠ "-" ∧
          (∃ signs numerics, t.text.toList = signs ++ numerics ∧
            (∀ c ∈ signs, c = '+' ∨ c = '-') ∧ ∀ c ∈ numerics, IsDigitOrPoint c) ∧
          (t.value ≠ none ↔ IsLiteral t.text) ∧
          ∀ x, t.value = some x →
            x ≠ .nan ∧ (x.signBit = true ↔ t.text.toList.head? = some '-')) ∧
      (∀ spelling x, (Term.number spelling).value = some x → ¬ IsLiteral spelling →
        ∀ t ∈ scan text, t.kind = .number → t.text ≠ spelling) ∧
      ∀ options, ((∃ c ∈ text.toList, c ∉ alphabet) ∨
          ∃ t ∈ scan text, t.kind = .number ∧ ¬ IsLiteral t.text) →
        (evaluate options text).result = .error ⟨.invalid, "Invalid Expression", some text⟩ := by
  refine ⟨fun t ht hkind => ?_, fun spelling x hx hother t ht hkind => ?_, fun options hfaulty => ?_⟩
  · obtain ⟨run, after, ⟨signs, numerics, hsplit, hsigns, hnumerics, _⟩, hne, hminus, hterm⟩ :=
      exists_isRun_of_mem_scan ht hkind
    have htext : t.text = .ofList run := by rw [hterm, Term.number]
    refine ⟨?_, ?_, ⟨signs, numerics, ?_, ?_, ?_⟩, value_ne_none_iff_of_mem_scan ht hkind,
      fun x hx => signBit_of_mem_scan ht hkind hx⟩
    · rw [htext]
      exact fun hempty => hne (String.ofList_inj.mp hempty)
    · rw [htext]
      exact fun hlone => hminus (String.ofList_inj.mp hlone)
    · rw [htext, String.toList_ofList, hsplit]
    · intro c hc
      simpa [isSign] using hsigns c hc
    · exact fun c hc => isNumeric_iff.mp (hnumerics c hc)
  · rintro rfl
    apply hother
    apply (value_ne_none_iff_of_mem_scan ht hkind).mp
    obtain ⟨run, after, _, _, _, rfl⟩ := exists_isRun_of_mem_scan ht hkind
    intro hnone
    exact Option.some_ne_none x (hx.symm.trans hnone)
  · apply evaluate_of_objection
    intro hvalid
    obtain ⟨hmade, hliterals⟩ := isLiteral_of_objection?_eq_none hvalid
    rcases hfaulty with ⟨c, hc, hout⟩ | ⟨t, ht, hkind, hother⟩
    · exact hout (hmade c hc)
    · exact hother (hliterals t ht hkind)

/-- A minus before a number of `-5-1e5` is its sign, the exponent is no part of a number, and the text is
plainly invalid. -/
theorem numbers_of_scan_exponent :
    Term.number "-5" ∈ scan "-5-1e5" ∧ (Term.number "-5").value ≠ none ∧ IsLiteral "-5" ∧
      (Term.number "-5").value = some (.ofBits 0xC014000000000000) ∧
      (Binary64.ofBits 0xC014000000000000).signBit = true ∧
      (Term.number "1e5").value = some (.ofBits 0x40F86A0000000000) ∧ ¬ IsLiteral "1e5" ∧
      (∀ t ∈ scan "-5-1e5", t.kind = .number → t.text ≠ "1e5") ∧
      'e' ∈ "-5-1e5".toList ∧ 'e' ∉ alphabet ∧
      (evaluate ⟨true, false⟩ "-5-1e5").result =
        .error ⟨.invalid, "Invalid Expression", some "-5-1e5"⟩ := by
  have hmem : Term.number "-5" ∈ scan "-5-1e5" := by decide +kernel
  have hfive : (Term.number "-5").value = some (.ofBits 0xC014000000000000) := by decide +kernel
  have hexponent : (Term.number "1e5").value = some (.ofBits 0x40F86A0000000000) := by decide +kernel
  have hother : ¬ IsLiteral "1e5" := by
    rintro ⟨l, sign, htext⟩
    have hchars : ['1', 'e', '5'] = sign.chars ++ l.chars := String.ofList_inj.mp htext
    have hcode := l.toNat_of_mem_chars sign 'e' (hchars ▸ by decide)
    exact absurd hcode (by decide)
  have hin : 'e' ∈ "-5-1e5".toList := by decide +kernel
  have hout : 'e' ∉ alphabet := by decide +kernel
  obtain ⟨hshape, hspellings, hrefused⟩ := numbers_of_scan "-5-1e5"
  obtain ⟨_, _, _, hliteral, hvalues⟩ := hshape _ hmem rfl
  have hvalue : (Term.number "-5").value ≠ none := by
    rw [hfive]
    exact Option.some_ne_none _
  exact ⟨hmem, hvalue, hliteral.mp hvalue, hfive, (hvalues _ hfive).2.mpr (by decide +kernel), hexponent,
    hother, hspellings _ _ hexponent hother, hin, hout, hrefused _ (.inl ⟨'e', hin, hout⟩)⟩

end Reckoner
