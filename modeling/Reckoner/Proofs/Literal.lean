import Reckoner.Proofs.Tree
import Reckoner.Scan

/-!
# Literals

A literal is a row of decimal digits with at most one point among them and at least one digit; a
sign may stand before it. It denotes its digits as a whole number, scaled down by as many tens as
digits follow the point, and rounded to a double. Reading its text as a number term gives exactly
this value, so a literal is an operand whatever its length.
-/

namespace Reckoner

/-- A sign that may stand before a literal. -/
inductive Sign where
  | none
  | plus
  | minus
deriving DecidableEq

namespace Sign

/-- How the sign is written. -/
def chars : Sign → List Char
  | .none => []
  | .plus => ['+']
  | .minus => ['-']

/-- Whether the sign makes the number negative. -/
def isNegative (sign : Sign) : Bool :=
  sign = .minus

end Sign

/-- Digits before the point, and digits after it if there is a point; there is a digit. -/
structure Literal where
  whole : List Char
  fraction : Option (List Char)
  isDigit_of_mem : ∀ c ∈ whole ++ fraction.getD [], c.isDigit = true
  ne_nil : whole ++ fraction.getD [] ≠ []

namespace Literal

/-- How the literal is written. -/
def chars (l : Literal) : List Char :=
  match l.fraction with
  | none => l.whole
  | some fraction => l.whole ++ '.' :: fraction

/-- The digits of the literal without the point. -/
def digits (l : Literal) : List Nat :=
  (l.whole ++ l.fraction.getD []).map fun c => c.toNat - 48

/-- The double that the literal denotes under a sign. -/
def value (l : Literal) (sign : Sign) : Binary64 :=
  .ofDecimal sign.isNegative (Numeral.ofDigits l.digits) (-(l.fraction.getD []).length)

end Literal

/-- A decimal digit has a code between those of zero and nine. -/
theorem toNat_of_isDigit {c : Char} (h : c.isDigit = true) : 48 ≤ c.toNat ∧ c.toNat ≤ 57 :=
  Char.isDigit_iff_toNat.mp h

/-- A character of a number is a digit or a point, so it has a code between 46 and 57. -/
theorem toNat_of_isNumeric {c : Char} (h : isNumeric c = true) : 46 ≤ c.toNat ∧ c.toNat ≤ 57 := by
  rcases Bool.or_eq_true_iff.mp h with hdigit | hpoint
  · have := toNat_of_isDigit hdigit
    omega
  · rw [of_decide_eq_true hpoint]
    decide

/-- A character with a code up to that of the nine is not changed by turning it into lower case. -/
theorem toLower_of_toNat_le {c : Char} (h : c.toNat ≤ 57) : c.toLower = c := by
  unfold Char.toLower
  rw [dif_neg]
  intro hupper
  have hlow := UInt32.le_iff_toNat_le.mp hupper.1
  change 65 ≤ c.toNat at hlow
  omega

/-- The value of a decimal digit is its distance from zero. -/
theorem digitValue?_of_isDigit {c : Char} (h : c.isDigit = true) :
    Text.digitValue? c = some (c.toNat - 48) := by
  obtain ⟨hlow, hhigh⟩ := toNat_of_isDigit h
  rw [Text.digitValue?, Text.digitZeros, List.find?_cons_of_pos]
  · rfl
  · simp only [Bool.and_eq_true, decide_eq_true_eq]
    omega

/-- Digits are read up to the first character that is no digit and joins none. -/
theorem digitRunAfter_append {digits rest : List Char}
    (hdigits : ∀ c ∈ digits, c.isDigit = true)
    (hrest : ∀ c ∈ rest.head?, Text.digitValue? c = none ∧ c ≠ '_') (joinable : Bool) :
    Numeral.digitRunAfter joinable (digits ++ rest) = (digits.map fun c => c.toNat - 48, rest) := by
  induction digits generalizing joinable with
  | nil =>
    cases rest with
    | nil => rfl
    | cons c rest =>
      obtain ⟨hdigit, hjoin⟩ := hrest c rfl
      simp [Numeral.digitRunAfter, hdigit, hjoin]
  | cons c digits ih =>
    have hc := digitValue?_of_isDigit (hdigits c List.mem_cons_self)
    have htail := ih (fun d hd => hdigits d (List.mem_cons_of_mem c hd)) true
    simp [Numeral.digitRunAfter, hc, htail]

/-- Digits are read up to a point. -/
theorem digitRun_append_point {digits : List Char} (hdigits : ∀ c ∈ digits, c.isDigit = true)
    (rest : List Char) :
    Numeral.digitRun (digits ++ '.' :: rest) =
      (digits.map fun c => c.toNat - 48, '.' :: rest) := by
  refine digitRunAfter_append hdigits (fun c hc => ?_) false
  cases hc
  decide

/-- Digits are read up to the end. -/
theorem digitRun_of_isDigit {digits : List Char} (hdigits : ∀ c ∈ digits, c.isDigit = true) :
    Numeral.digitRun digits = (digits.map fun c => c.toNat - 48, []) := by
  have hrun : Numeral.digitRunAfter false (digits ++ []) = (_, []) :=
    digitRunAfter_append hdigits (by simp) false
  rwa [List.append_nil] at hrun

/-- What follows a number goes on with no digit, joins none and is no point. -/
def EndsNumber (rest : List Char) : Prop :=
  ∀ c ∈ rest.head?, (Text.digitValue? c = none ∧ c ≠ '_') ∧ c ≠ '.'

theorem endsNumber_nil : EndsNumber [] := fun _ h => nomatch h

/-- Without a point there is no fraction. -/
theorem fractionRun_of_endsNumber {rest : List Char} (hrest : EndsNumber rest) :
    Numeral.fractionRun rest = ([], rest) := by
  unfold Numeral.fractionRun
  split
  · exact absurd rfl (hrest '.' rfl).2
  · rfl

/-- A sign is split off what starts with none. -/
theorem splitSign_chars {text : List Char} (h : ∀ c ∈ text.head?, c ≠ '+' ∧ c ≠ '-') (sign : Sign) :
    Numeral.splitSign (sign.chars ++ text) = (sign.isNegative, text) := by
  cases sign with
  | plus => rfl
  | minus => rfl
  | none =>
    rw [Sign.chars, List.nil_append]
    unfold Numeral.splitSign
    split
    · exact absurd rfl (h '-' rfl).2
    · exact absurd rfl (h '+' rfl).1
    · rfl

/-- A text without blanks is not trimmed. -/
theorem trim_of_forall_not_isBlank {text : List Char} (h : ∀ c ∈ text, Text.isBlank c = false) :
    Text.trim text = text := by
  have hdrop {text : List Char} (h : ∀ c ∈ text, Text.isBlank c = false) :
      text.dropWhile Text.isBlank = text := by
    cases text with
    | nil => rfl
    | cons c rest => rw [List.dropWhile_cons_of_neg (by simp [h c List.mem_cons_self])]
  rw [Text.trim, hdrop h, hdrop (fun c hc => h c (List.mem_reverse.mp hc)), List.reverse_reverse]

/-- The signs, the point and the digits are no blanks. -/
theorem isBlank_of_toNat {c : Char} (h : 43 ≤ c.toNat ∧ c.toNat ≤ 57) : Text.isBlank c = false := by
  simp [Text.isBlank, Text.inRanges, Text.blankRanges]
  omega

namespace Literal

/-- The digits before the point are digits. -/
theorem isDigit_whole (l : Literal) : ∀ c ∈ l.whole, c.isDigit = true := fun c hc =>
  l.isDigit_of_mem c (List.mem_append_left _ hc)

/-- The digits after the point are digits. -/
theorem isDigit_fraction (l : Literal) : ∀ c ∈ l.fraction.getD [], c.isDigit = true := fun c hc =>
  l.isDigit_of_mem c (List.mem_append_right _ hc)

/-- A literal is written with digits and points only. -/
theorem isNumeric_of_mem (l : Literal) : ∀ c ∈ l.chars, isNumeric c = true := by
  have hdigit {c : Char} (h : c.isDigit = true) : isNumeric c = true := by
    rw [isNumeric, h, Bool.true_or]
  intro c hc
  unfold chars at hc
  split at hc
  · exact hdigit (l.isDigit_whole c hc)
  · next fraction hfraction =>
    rcases List.mem_append.mp hc with hwhole | hpoint
    · exact hdigit (l.isDigit_whole c hwhole)
    · rcases List.mem_cons.mp hpoint with rfl | htail
      · rfl
      · exact hdigit (l.isDigit_fraction c (by rwa [hfraction]))

/-- A literal is written with at least one character. -/
theorem chars_ne_nil (l : Literal) : l.chars ≠ [] := by
  have hne := l.ne_nil
  unfold chars
  split
  · next hfraction => simpa [hfraction] using hne
  · simp

/-- An unsigned literal is read as its digits and the number of places after the point; what follows it
is read as its exponent. -/
theorem unsigned?_chars_append (l : Literal) {rest : List Char} (hrest : EndsNumber rest) :
    Numeral.unsigned? (l.chars ++ rest) = (Numeral.exponent? rest).map fun exponent =>
      (Numeral.ofDigits l.digits, exponent - ((l.fraction.getD []).length : Int)) := by
  have hwhole := l.isDigit_whole
  have hfraction := l.isDigit_fraction
  have hne := l.ne_nil
  have hend := fun c hc => (hrest c hc).1
  unfold chars digits Numeral.unsigned?
  cases h : l.fraction with
  | none =>
    rw [h, Option.getD_none, List.append_nil] at hne
    have hrun := digitRunAfter_append hwhole hend false
    simp [Numeral.digitRun, hrun, fractionRun_of_endsNumber hrest, hne]
  | some fraction =>
    rw [h, Option.getD_some] at hfraction hne
    have hrun : Numeral.digitRun (fraction ++ rest) = (fraction.map fun c => c.toNat - 48, rest) :=
      digitRunAfter_append hfraction hend false
    simp only [List.append_assoc, List.cons_append, digitRun_append_point hwhole,
      Numeral.fractionRun, hrun]
    rw [if_neg (by simpa using hne)]
    simp

/-- A literal starts with a digit or point. -/
theorem exists_chars_eq_cons (l : Literal) :
    ∃ c rest, l.chars = c :: rest ∧ isNumeric c = true := by
  obtain ⟨c, rest, hchars⟩ := List.exists_cons_of_ne_nil l.chars_ne_nil
  refine ⟨c, rest, hchars, l.isNumeric_of_mem c ?_⟩
  rw [hchars]
  exact List.mem_cons_self

/-- The sign before a literal is split off. -/
theorem splitSign_chars_append (l : Literal) (sign : Sign) (rest : List Char) :
    Numeral.splitSign (sign.chars ++ l.chars ++ rest) = (sign.isNegative, l.chars ++ rest) := by
  obtain ⟨c, tail, hchars, hc⟩ := l.exists_chars_eq_cons
  rw [List.append_assoc, hchars, List.cons_append]
  refine splitSign_chars (fun d hd => ?_) sign
  cases hd
  constructor <;> exact ne_of_apply_ne isNumeric (by rw [hc]; decide)

/-- A signed literal is read as its digits under its sign, with what follows it as its exponent. -/
theorem ofTrimmed?_chars_append (l : Literal) (sign : Sign) {rest : List Char}
    (hrest : EndsNumber rest) :
    Numeral.ofTrimmed? (sign.chars ++ l.chars ++ rest) =
      (Numeral.exponent? rest).map fun exponent =>
        .decimal sign.isNegative (Numeral.ofDigits l.digits)
          (exponent - ((l.fraction.getD []).length : Int)) := by
  obtain ⟨c, tail, hchars, hc⟩ := l.exists_chars_eq_cons
  have hcode := toNat_of_isNumeric hc
  have hletter {d : Char} (hd : 57 < d.toNat) : c ≠ d := by
    intro heq
    rw [heq] at hcode
    omega
  have hinf : c ≠ 'i' := hletter (by decide)
  have hnan : c ≠ 'n' := hletter (by decide)
  have hunsigned := l.unsigned?_chars_append hrest
  unfold Numeral.ofTrimmed?
  rw [splitSign_chars_append]
  rw [hchars] at hunsigned ⊢
  simp [toLower_of_toNat_le hcode.2, hinf, hnan] at hunsigned ⊢
  rw [hunsigned, Option.map_map]
  rfl

/-- A signed literal is written with codes between those of the plus and of the nine. -/
theorem toNat_of_mem_chars (l : Literal) (sign : Sign) :
    ∀ c ∈ sign.chars ++ l.chars, 43 ≤ c.toNat ∧ c.toNat ≤ 57 := by
  intro c hc
  rcases List.mem_append.mp hc with hsign | hliteral
  · cases sign with
    | none => cases hsign
    | plus => rw [List.mem_singleton.mp hsign]; decide
    | minus => rw [List.mem_singleton.mp hsign]; decide
  · have := toNat_of_isNumeric (l.isNumeric_of_mem c hliteral)
    omega

/-- A literal as the text of a term. -/
def text (l : Literal) (sign : Sign) : String :=
  .ofList (sign.chars ++ l.chars)

/-- The text of a literal denotes the value of the literal. -/
theorem ofString?_text (l : Literal) (sign : Sign) :
    Binary64.ofString? (l.text sign) = some (l.value sign) := by
  have hread := l.ofTrimmed?_chars_append sign endsNumber_nil
  rw [List.append_nil] at hread
  rw [Binary64.ofString?, Numeral.ofString?, text, String.toList_ofList,
    trim_of_forall_not_isBlank fun c hc => isBlank_of_toNat (l.toNat_of_mem_chars sign c hc), hread]
  simp [Numeral.exponent?, Binary64.ofNumeral, value]

/-- A literal as a term has the value of the literal. -/
theorem operand?_text (l : Literal) (sign : Sign) :
    (Term.number (l.text sign)).operand? = some (l.value sign) := by
  rw [Term.operand?_eq_some_iff, Term.number, ofString?_text]
  exact ⟨rfl, rfl⟩

/-- A literal is an operand. -/
def operand (l : Literal) (sign : Sign) : Operand where
  term := .number (l.text sign)
  value := l.value sign
  reads := l.operand?_text sign

end Literal

end Reckoner
