import Reckoner.Proofs.NearestDouble

/-!
# Written decimals

How a decimal number is written, told without a reader: blanks, a sign, digits of any script with single
underscores between them and at most one point among them, and a power of ten behind a mark. The digits
stand for their places, so the number that is written is a rational. A text is read as a decimal exactly
if it is written in this way, and what is read is the number written. Apart from decimals only the words
for infinities and NaN are read.
-/

namespace Reckoner

/-- A row of decimal digits of any script, with at most one underscore between two of them. -/
inductive WritesDigits : List Char → List Nat → Prop
  | nil : WritesDigits [] []
  | next {c : Char} {digit : Nat} {text : List Char} {digits : List Nat}
      (hdigit : Text.digitValue? c = some digit) (hrest : WritesDigits text digits) :
      WritesDigits (c :: text) (digit :: digits)
  | joined {c : Char} {digit : Nat} {text : List Char} {digits : List Nat}
      (hdigit : Text.digitValue? c = some digit) (hrest : WritesDigits text digits)
      (hne : digits ≠ []) : WritesDigits (c :: '_' :: text) (digit :: digits)

/-- Digits alone, or a point with digits on one side of it at least. -/
inductive WritesNumber : List Char → List Nat → List Nat → Prop
  | whole {text : List Char} {digits : List Nat} (hwhole : WritesDigits text digits)
      (hne : digits ≠ []) : WritesNumber text digits []
  | pointed {text text' : List Char} {whole fraction : List Nat} (hwhole : WritesDigits text whole)
      (hfraction : WritesDigits text' fraction) (hne : whole ++ fraction ≠ []) :
      WritesNumber (text ++ '.' :: text') whole fraction

/-- The number that digits before the point stand for. -/
def wholeValue : List Nat → Nat
  | [] => 0
  | digit :: rest => digit * 10 ^ rest.length + wholeValue rest

/-- The number that digits after the point stand for. -/
def fractionValue : List Nat → ℚ
  | [] => 0
  | digit :: rest => (digit + fractionValue rest) / 10

/-- A power of ten behind a number: nothing, or a mark, a sign and digits. -/
inductive WritesPower : List Char → Int → Prop
  | nothing : WritesPower [] 0
  | marked {mark : Char} {text : List Char} {digits : List Nat} (hmark : mark = 'e' ∨ mark = 'E')
      (sign : Sign) (hdigits : WritesDigits text digits) (hne : digits ≠ []) :
      WritesPower (mark :: (sign.chars ++ text))
        (if sign.isNegative then -(wholeValue digits : Int) else wholeValue digits)

/-- Whether a text consists of blanks. -/
def Blanks (text : List Char) : Prop :=
  ∀ c ∈ text, Text.isBlank c = true

/-- A decimal number between blanks, with its sign and its value. -/
inductive WritesDecimal : List Char → Bool → ℚ → Prop
  | mk {before number power after : List Char} {whole fraction : List Nat} {exponent : Int}
      (hbefore : Blanks before) (hafter : Blanks after) (sign : Sign)
      (hnumber : WritesNumber number whole fraction) (hpower : WritesPower power exponent) :
      WritesDecimal (before ++ (sign.chars ++ (number ++ power)) ++ after) sign.isNegative
        (signed sign.isNegative ((wholeValue whole + fractionValue fraction) * 10 ^ exponent))

/-- A word for an infinity or for NaN between blanks, in any ASCII case and under any sign. -/
inductive WritesWord : List Char → Prop
  | mk {before word after : List Char} (hbefore : Blanks before) (hafter : Blanks after) (sign : Sign)
      (hword : String.ofList (word.map Char.toLower) ∈ ["inf", "infinity", "nan"]) :
      WritesWord (before ++ (sign.chars ++ word) ++ after)

section Values

/-- Digits read from the left stand for their places. -/
theorem ofDigits_eq_wholeValue (digits : List Nat) : Numeral.ofDigits digits = wholeValue digits := by
  have hfold (value : Nat) : digits.foldl (fun value digit => 10 * value + digit) value =
      value * 10 ^ digits.length + wholeValue digits := by
    induction digits generalizing value with
    | nil => simp [wholeValue]
    | cons digit rest ih =>
      rw [List.foldl_cons, ih, wholeValue, List.length_cons]
      ring
  rw [Numeral.ofDigits, hfold, Nat.zero_mul, Nat.zero_add]

/-- Digits with others behind them move up by as many places. -/
theorem wholeValue_append (first second : List Nat) :
    wholeValue (first ++ second) = wholeValue first * 10 ^ second.length + wholeValue second := by
  induction first with
  | nil => simp [wholeValue]
  | cons digit rest ih =>
    rw [List.cons_append, wholeValue, ih, wholeValue, List.length_append]
    ring

/-- The digits after the point are a whole number over a power of ten. -/
theorem fractionValue_eq (digits : List Nat) :
    fractionValue digits = wholeValue digits / 10 ^ digits.length := by
  induction digits with
  | nil => simp [fractionValue, wholeValue]
  | cons digit rest ih =>
    rw [fractionValue, ih, wholeValue, List.length_cons, pow_succ]
    push_cast
    field_simp

/-- The digits on both sides of the point are one whole number, as many tens down as digits follow the
point. -/
theorem ofDigits_append_mul_zpow (whole fraction : List Nat) (exponent : Int) :
    (Numeral.ofDigits (whole ++ fraction) : ℚ) * 10 ^ (exponent - fraction.length) =
      (wholeValue whole + fractionValue fraction) * 10 ^ exponent := by
  rw [ofDigits_eq_wholeValue, wholeValue_append, fractionValue_eq, zpow_sub₀ (by norm_num),
    zpow_natCast]
  push_cast
  field_simp

end Values

section Digits

/-- A digit has a code of the ASCII digits or one past the Latin letters. -/
theorem toNat_of_digitValue? {c : Char} {digit : Nat} (h : Text.digitValue? c = some digit) :
    c.toNat ∈ Set.Icc 48 57 ∨ 0x660 ≤ c.toNat := by
  obtain ⟨first, hfind, -⟩ := Option.map_eq_some_iff.mp h
  have hmem := List.mem_of_find?_eq_some hfind
  have hrange := List.find?_some hfind
  have hzeros : ∀ first ∈ Text.digitZeros, first = 48 ∨ 0x660 ≤ first := by decide
  have hfirst := hzeros first hmem
  simp only [Bool.and_eq_true, decide_eq_true_eq] at hrange
  rw [Set.mem_Icc]
  omega

/-- A digit is no blank. -/
theorem isBlank_of_digitValue? {c : Char} {digit : Nat} (h : Text.digitValue? c = some digit) :
    Text.isBlank c = false := by
  obtain ⟨first, hfind, -⟩ := Option.map_eq_some_iff.mp h
  have hmem := List.mem_of_find?_eq_some hfind
  have hrange := List.find?_some hfind
  have hdisjoint : ∀ first ∈ Text.digitZeros, ∀ range ∈ Text.blankRanges,
      range.2 < first ∨ first + 10 ≤ range.1 := by decide
  simp only [Bool.and_eq_true, decide_eq_true_eq] at hrange
  rw [Text.isBlank, Text.inRanges, List.any_eq_false]
  intro range hblank
  have := hdisjoint first hmem range hblank
  simp only [Bool.and_eq_true, decide_eq_true_eq]
  omega

/-- A digit differs from what is none. -/
theorem ne_of_digitValue? {c d : Char} {digit : Nat} (hc : Text.digitValue? c = some digit)
    (hd : Text.digitValue? d = none) : c ≠ d := by
  rintro rfl
  cases hc.symm.trans hd

/-- Turning it into lower case does not change a digit. -/
theorem toLower_of_digitValue? {c : Char} {digit : Nat} (h : Text.digitValue? c = some digit) :
    c.toLower = c := by
  rcases toNat_of_digitValue? h with hascii | hlarge
  · exact toLower_of_toNat_le hascii.2
  · unfold Char.toLower
    rw [dif_neg]
    intro hupper
    have hhigh := UInt32.le_iff_toNat_le.mp hupper.2
    change c.toNat ≤ 90 at hhigh
    omega

/-- No digit follows, and no underscore that could join one. -/
def EndsDigits (rest : List Char) : Prop :=
  ∀ c ∈ rest.head?, Text.digitValue? c = none ∧ c ≠ '_'

/-- A digit is read before the digits that follow it. -/
theorem digitRunAfter_cons {c : Char} {digit : Nat} (h : Text.digitValue? c = some digit)
    (joinable : Bool) (rest : List Char) :
    Numeral.digitRunAfter joinable (c :: rest) =
      (digit :: (Numeral.digitRunAfter true rest).1, (Numeral.digitRunAfter true rest).2) := by
  simp [Numeral.digitRunAfter, h]

/-- An underscore between digits is passed over. -/
theorem digitRunAfter_joined {text rest : List Char} {digits : List Nat}
    (h : Numeral.digitRunAfter false text = (digits, rest)) (hne : digits ≠ []) :
    Numeral.digitRunAfter true ('_' :: text) = (digits, rest) := by
  obtain ⟨digit, digits, rfl⟩ := List.exists_cons_of_ne_nil hne
  have hunderscore : Text.digitValue? '_' = none := by decide
  simp [Numeral.digitRunAfter, hunderscore, h]

/-- Written digits are read up to their end. -/
theorem WritesDigits.digitRunAfter {text rest : List Char} {digits : List Nat}
    (h : WritesDigits text digits) (hrest : EndsDigits rest) (joinable : Bool) :
    Numeral.digitRunAfter joinable (text ++ rest) = (digits, rest) := by
  induction h generalizing joinable with
  | nil =>
    have hnone : ∀ c ∈ ([] : List Char), c.isDigit = true := fun _ h => nomatch h
    exact digitRunAfter_append hnone hrest joinable
  | next hdigit hdigits ih =>
    rw [List.cons_append, digitRunAfter_cons hdigit, ih]
  | joined hdigit hdigits hne ih =>
    rw [List.cons_append, List.cons_append, digitRunAfter_cons hdigit,
      digitRunAfter_joined (ih false) hne]

/-- What is read as digits is written as such, behind an underscore that was to join it perhaps. -/
theorem writesDigits_of_digitRunAfter {joinable : Bool} {text rest : List Char} {digits : List Nat}
    (h : Numeral.digitRunAfter joinable text = (digits, rest)) :
    ∃ read, WritesDigits read digits ∧
      (text = read ++ rest ∨ digits ≠ [] ∧ joinable = true ∧ text = '_' :: (read ++ rest)) := by
  induction text generalizing joinable digits with
  | nil =>
    cases h
    exact ⟨[], .nil, .inl rfl⟩
  | cons c text ih =>
    rw [Numeral.digitRunAfter] at h
    split at h
    · next digit hdigit =>
      generalize hrun : Numeral.digitRunAfter true text = run at h
      obtain ⟨digits, after⟩ := run
      cases h
      obtain ⟨read, hread, htext⟩ := ih hrun
      rcases htext with htext | ⟨hne, -, htext⟩
      · exact ⟨c :: read, .next hdigit hread, .inl (congrArg (c :: ·) htext)⟩
      · exact ⟨c :: '_' :: read, .joined hdigit hread hne, .inl (congrArg (c :: ·) htext)⟩
    · split at h
      · next hjoin =>
        split at h
        · cases h
          exact ⟨[], .nil, .inl rfl⟩
        · next hne hrun =>
          cases h
          obtain ⟨read, hread, htext⟩ := ih hrun
          have htext : text = read ++ rest := htext.resolve_right (by simp)
          exact ⟨read, hread, .inr ⟨hne, hjoin.1, by rw [hjoin.2, htext]⟩⟩
      · cases h
        exact ⟨[], .nil, .inl rfl⟩

/-- Written digits are read up to their end. -/
theorem WritesDigits.digitRun {text rest : List Char} {digits : List Nat}
    (h : WritesDigits text digits) (hrest : EndsDigits rest) :
    Numeral.digitRun (text ++ rest) = (digits, rest) :=
  h.digitRunAfter hrest false

/-- What is read as digits is written as such. -/
theorem writesDigits_of_digitRun {text rest : List Char} {digits : List Nat}
    (h : Numeral.digitRun text = (digits, rest)) :
    ∃ read, WritesDigits read digits ∧ text = read ++ rest := by
  obtain ⟨read, hread, htext⟩ := writesDigits_of_digitRunAfter h
  exact ⟨read, hread, htext.resolve_right (by simp)⟩

/-- Written digits start with a digit. -/
theorem WritesDigits.head {text : List Char} {digits : List Nat} (h : WritesDigits text digits)
    (hne : digits ≠ []) : ∃ c rest digit, text = c :: rest ∧ Text.digitValue? c = some digit := by
  cases h with
  | nil => exact absurd rfl hne
  | next hdigit _ => exact ⟨_, _, _, rfl, hdigit⟩
  | joined hdigit _ _ => exact ⟨_, _, _, rfl, hdigit⟩

end Digits

section Powers

/-- A power of ten ends the number before it. -/
theorem WritesPower.endsNumber {text : List Char} {exponent : Int} (h : WritesPower text exponent) :
    EndsNumber text := by
  cases h with
  | nothing => exact endsNumber_nil
  | marked hmark _ _ _ =>
    intro c hc
    cases hc
    rcases hmark with rfl | rfl <;> decide

/-- A power of ten is read as its exponent. -/
theorem WritesPower.exponent? {text : List Char} {exponent : Int} (h : WritesPower text exponent) :
    Numeral.exponent? text = some exponent := by
  cases h with
  | nothing => rfl
  | @marked mark text digits hmark sign hdigits hne =>
    obtain ⟨c, rest, digit, hhead, hc⟩ := hdigits.head hne
    have hsign : Numeral.splitSign (sign.chars ++ text) = (sign.isNegative, text) := by
      refine splitSign_chars (fun d hd => ?_) sign
      rw [hhead] at hd
      cases hd
      exact ⟨ne_of_digitValue? hc (by decide), ne_of_digitValue? hc (by decide)⟩
    have hrun : Numeral.digitRun (text ++ []) = (digits, []) := hdigits.digitRun fun _ h => nomatch h
    rw [List.append_nil] at hrun
    rw [Numeral.exponent?, if_pos hmark, hsign]
    obtain ⟨first, others, rfl⟩ := List.exists_cons_of_ne_nil hne
    dsimp only
    rw [hrun, ← ofDigits_eq_wholeValue]

/-- What is read as an exponent is written as a power of ten. -/
theorem writesPower_of_exponent? {text : List Char} {exponent : Int}
    (h : Numeral.exponent? text = some exponent) : WritesPower text exponent := by
  cases text with
  | nil =>
    cases h
    exact .nothing
  | cons mark text =>
    obtain ⟨sign, hnegative, htext⟩ := exists_sign_of_splitSign text
    rw [Numeral.exponent?] at h
    split at h
    · next hmark =>
      generalize Numeral.splitSign text = parts at h hnegative htext
      obtain ⟨negative, unsigned⟩ := parts
      dsimp only at h hnegative htext
      split at h
      · cases h
      · next digits hne hrun =>
        obtain ⟨read, hread, hunsigned⟩ := writesDigits_of_digitRun hrun
        rw [List.append_nil] at hunsigned
        cases h
        rw [htext, hunsigned, ofDigits_eq_wholeValue, ← hnegative]
        exact .marked hmark sign hread hne
      · cases h
    · cases h

end Powers

section Numbers

/-- A number is read as its digits and the number of places after the point; what follows it is read as
its exponent. -/
theorem WritesNumber.unsigned? {text rest : List Char} {whole fraction : List Nat}
    (h : WritesNumber text whole fraction) (hrest : EndsNumber rest) :
    Numeral.unsigned? (text ++ rest) = (Numeral.exponent? rest).map fun exponent =>
      (Numeral.ofDigits (whole ++ fraction), exponent - (fraction.length : Int)) := by
  have hends : EndsDigits rest := fun c hc => (hrest c hc).1
  unfold Numeral.unsigned?
  cases h with
  | whole hwhole hne =>
    rw [hwhole.digitRun hends]
    dsimp only
    rw [fractionRun_of_endsNumber hrest]
    dsimp only
    rw [if_neg (fun h => hne h.1)]
  | pointed hwhole hfraction hne =>
    rw [List.append_assoc, List.cons_append, hwhole.digitRun (fun c hc => by cases hc; decide)]
    dsimp only
    rw [Numeral.fractionRun, hfraction.digitRun hends]
    dsimp only
    rw [if_neg (fun h => hne (by rw [h.1, h.2, List.append_nil]))]

/-- What is read as an unsigned numeral is written as a number and a power of ten. -/
theorem exists_writesNumber_of_unsigned? {text : List Char} {significand : Nat} {exponent : Int}
    (h : Numeral.unsigned? text = some (significand, exponent)) :
    ∃ number power whole fraction power', text = number ++ power ∧
      WritesNumber number whole fraction ∧ WritesPower power power' ∧
      significand = Numeral.ofDigits (whole ++ fraction) ∧ exponent = power' - fraction.length := by
  unfold Numeral.unsigned? at h
  generalize hwhole : Numeral.digitRun text = run at h
  obtain ⟨whole, afterWhole⟩ := run
  obtain ⟨read, hread, rfl⟩ := writesDigits_of_digitRun hwhole
  dsimp only at h
  generalize hfraction : Numeral.fractionRun afterWhole = run at h
  obtain ⟨fraction, afterFraction⟩ := run
  dsimp only at h
  split at h
  · cases h
  · next hne =>
    obtain ⟨power', hpower, hparts⟩ := Option.map_eq_some_iff.mp h
    cases hparts
    unfold Numeral.fractionRun at hfraction
    split at hfraction
    · obtain ⟨read', hread', rfl⟩ := writesDigits_of_digitRun hfraction
      refine ⟨read ++ '.' :: read', afterFraction, whole, fraction, power', by simp,
        .pointed hread hread' (by simpa using hne), writesPower_of_exponent? hpower, rfl, rfl⟩
    · cases hfraction
      exact ⟨read, afterWhole, whole, [], power', rfl, .whole hread (by simpa using hne),
        writesPower_of_exponent? hpower, by rw [List.append_nil], rfl⟩

end Numbers

section Trim

/-- Blanks around a text without blanks are trimmed off. -/
theorem trim_append {before text after : List Char} (hbefore : Blanks before) (hafter : Blanks after)
    (hne : text ≠ []) (htext : ∀ c ∈ text, Text.isBlank c = false) :
    Text.trim (before ++ text ++ after) = text := by
  have hdrop {blanks text : List Char} (hblanks : Blanks blanks) (hne : text ≠ [])
      (htext : ∀ c ∈ text, Text.isBlank c = false) (rest : List Char) :
      (blanks ++ (text ++ rest)).dropWhile Text.isBlank = text ++ rest := by
    obtain ⟨c, others, rfl⟩ := List.exists_cons_of_ne_nil hne
    rw [List.dropWhile_append_of_pos hblanks, List.cons_append,
      List.dropWhile_cons_of_neg (by simp [htext c List.mem_cons_self])]
  have hback := hdrop (fun c hc => hafter c (List.mem_reverse.mp hc)) (List.reverse_ne_nil_iff.mpr hne)
    (fun c hc => htext c (List.mem_reverse.mp hc)) []
  rw [List.append_nil, ← List.reverse_append] at hback
  rw [Text.trim, List.append_assoc, hdrop hbefore hne htext, hback, List.reverse_reverse]

/-- What is trimmed off a text is blanks around it. -/
theorem exists_blanks_of_trim (text : List Char) :
    ∃ before after, Blanks before ∧ Blanks after ∧ text = before ++ Text.trim text ++ after := by
  have hblanks (text : List Char) : Blanks (text.takeWhile Text.isBlank) := fun _ hc =>
    List.mem_takeWhile_imp hc
  let kept := text.dropWhile Text.isBlank
  refine ⟨text.takeWhile Text.isBlank, (kept.reverse.takeWhile Text.isBlank).reverse, hblanks text,
    fun c hc => hblanks _ c (List.mem_reverse.mp hc), ?_⟩
  have hkept : kept = Text.trim text ++ (kept.reverse.takeWhile Text.isBlank).reverse := by
    rw [Text.trim, ← List.reverse_append, List.takeWhile_append_dropWhile, List.reverse_reverse]
  rw [List.append_assoc, ← hkept, List.takeWhile_append_dropWhile]

end Trim

section Reading

/-- Digits are written without blanks. -/
theorem WritesDigits.not_isBlank {text : List Char} {digits : List Nat} (h : WritesDigits text digits) :
    ∀ c ∈ text, Text.isBlank c = false := by
  induction h with
  | nil => exact fun _ h => nomatch h
  | next hdigit _ ih => exact List.forall_mem_cons.mpr ⟨isBlank_of_digitValue? hdigit, ih⟩
  | joined hdigit _ _ ih =>
    exact List.forall_mem_cons.mpr
      ⟨isBlank_of_digitValue? hdigit, List.forall_mem_cons.mpr ⟨by decide, ih⟩⟩

/-- Signs are no blanks. -/
theorem Sign.not_isBlank (sign : Sign) : ∀ c ∈ sign.chars, Text.isBlank c = false := by
  cases sign with
  | none => exact fun _ h => nomatch h
  | plus => exact List.forall_mem_singleton.mpr rfl
  | minus => exact List.forall_mem_singleton.mpr rfl

/-- A number is written without blanks. -/
theorem WritesNumber.not_isBlank {text : List Char} {whole fraction : List Nat}
    (h : WritesNumber text whole fraction) : ∀ c ∈ text, Text.isBlank c = false := by
  cases h with
  | whole hwhole _ => exact hwhole.not_isBlank
  | pointed hwhole hfraction _ =>
    exact List.forall_mem_append.mpr
      ⟨hwhole.not_isBlank, List.forall_mem_cons.mpr ⟨by decide, hfraction.not_isBlank⟩⟩

/-- A power of ten is written without blanks. -/
theorem WritesPower.not_isBlank {text : List Char} {exponent : Int} (h : WritesPower text exponent) :
    ∀ c ∈ text, Text.isBlank c = false := by
  cases h with
  | nothing => exact fun _ h => nomatch h
  | marked hmark sign hdigits _ =>
    refine List.forall_mem_cons.mpr
      ⟨?_, List.forall_mem_append.mpr ⟨sign.not_isBlank, hdigits.not_isBlank⟩⟩
    rcases hmark with rfl | rfl <;> decide

/-- A number starts with a digit or a point. -/
theorem WritesNumber.head {text : List Char} {whole fraction : List Nat}
    (h : WritesNumber text whole fraction) :
    ∃ c rest, text = c :: rest ∧ ((∃ digit, Text.digitValue? c = some digit) ∨ c = '.') := by
  cases h with
  | whole hwhole hne =>
    obtain ⟨c, rest, digit, htext, hdigit⟩ := hwhole.head hne
    exact ⟨c, rest, htext, .inl ⟨digit, hdigit⟩⟩
  | pointed hwhole hfraction hne =>
    cases hwhole with
    | nil => exact ⟨'.', _, rfl, .inr rfl⟩
    | next hdigit _ => exact ⟨_, _, rfl, .inl ⟨_, hdigit⟩⟩
    | joined hdigit _ _ => exact ⟨_, _, rfl, .inl ⟨_, hdigit⟩⟩

/-- A decimal without blanks around it is read as its digits and its power of ten. -/
theorem ofTrimmed?_of_writesNumber {number power : List Char} {whole fraction : List Nat}
    {exponent : Int} (sign : Sign) (hnumber : WritesNumber number whole fraction)
    (hpower : WritesPower power exponent) :
    Numeral.ofTrimmed? (sign.chars ++ (number ++ power)) =
      some (.decimal sign.isNegative (Numeral.ofDigits (whole ++ fraction))
        (exponent - (fraction.length : Int))) := by
  obtain ⟨c, rest, rfl, hc⟩ := hnumber.head
  have hunsigned := hnumber.unsigned? hpower.endsNumber
  have hletter : c ≠ '+' ∧ c ≠ '-' ∧ c.toLower ≠ 'i' ∧ c.toLower ≠ 'n' := by
    rcases hc with ⟨digit, hdigit⟩ | rfl
    · rw [toLower_of_digitValue? hdigit]
      have hne {d : Char} (hd : Text.digitValue? d = none) := ne_of_digitValue? hdigit hd
      exact ⟨hne (by decide), hne (by decide), hne (by decide), hne (by decide)⟩
    · decide
  have hsign : Numeral.splitSign (sign.chars ++ (c :: rest ++ power)) =
      (sign.isNegative, c :: rest ++ power) := by
    refine splitSign_chars (fun d hd => ?_) sign
    cases hd
    exact ⟨hletter.1, hletter.2.1⟩
  rw [Numeral.ofTrimmed?, hsign]
  dsimp only
  rw [hunsigned, hpower.exponent?, if_neg, if_neg]
  · rfl
  · simp [hletter]
  · simp [hletter]

/-- A written decimal is read as a decimal of its sign and value. -/
theorem WritesDecimal.ofString? {text : String} {negative : Bool} {q : ℚ}
    (h : WritesDecimal text.toList negative q) :
    ∃ significand exponent,
      Numeral.ofString? text = some (.decimal negative significand exponent) ∧
        q = signed negative (significand * 10 ^ exponent) := by
  generalize htext : text.toList = chars at h
  obtain @⟨before, number, power, after, whole, fraction, exponent, hbefore, hafter, sign, hnumber,
    hpower⟩ := h
  refine ⟨Numeral.ofDigits (whole ++ fraction), exponent - (fraction.length : Int), ?_, ?_⟩
  · have hne : sign.chars ++ (number ++ power) ≠ [] := by
      obtain ⟨c, rest, rfl, -⟩ := hnumber.head
      simp
    have hblank := List.forall_mem_append.mpr ⟨sign.not_isBlank,
      List.forall_mem_append.mpr ⟨hnumber.not_isBlank, hpower.not_isBlank⟩⟩
    rw [Numeral.ofString?, htext, trim_append hbefore hafter hne hblank,
      ofTrimmed?_of_writesNumber sign hnumber hpower]
  · rw [ofDigits_append_mul_zpow]

/-- What is read as a numeral is a word or a written decimal of its sign and value. -/
theorem writesDecimal_of_ofString? {text : String} {numeral : Numeral}
    (h : Numeral.ofString? text = some numeral) :
    WritesWord text.toList ∨ ∃ negative significand exponent,
      numeral = .decimal negative significand exponent ∧
        WritesDecimal text.toList negative (signed negative (significand * 10 ^ exponent)) := by
  obtain ⟨before, after, hbefore, hafter, htext⟩ := exists_blanks_of_trim text.toList
  obtain ⟨sign, hnegative, hsign⟩ := exists_sign_of_splitSign (Text.trim text.toList)
  rw [Numeral.ofString?, Numeral.ofTrimmed?] at h
  generalize Numeral.splitSign (Text.trim text.toList) = parts at h hnegative hsign
  obtain ⟨negative, unsigned⟩ := parts
  dsimp only at h hnegative hsign
  rw [htext, hsign]
  split at h
  · next hword =>
    left
    refine .mk hbefore hafter sign ?_
    rcases hword with hword | hword <;> rw [hword] <;> decide
  · split at h
    · next hword =>
      left
      refine .mk hbefore hafter sign ?_
      rw [hword]
      decide
    · right
      obtain ⟨⟨significand, exponent⟩, hunsigned, hnumeral⟩ := Option.map_eq_some_iff.mp h
      obtain ⟨number, power, whole, fraction, power', rfl, hnumber, hpower, rfl, rfl⟩ :=
        exists_writesNumber_of_unsigned? hunsigned
      refine ⟨negative, _, _, hnumeral.symm, ?_⟩
      rw [ofDigits_append_mul_zpow, ← hnegative]
      exact .mk hbefore hafter sign hnumber hpower

end Reading

/-- A decimal's double is the one nearest to its value, of two the even one, unless the value is halfway
to the limit or more, which makes it an infinity. -/
theorem ofDecimal_nearest (negative : Bool) (significand : Nat) (exponent : Int) {a : ℚ}
    (ha : (significand * 10 ^ exponent : ℚ) = a) :
    (∀ negative', Binary64.ofDecimal negative significand exponent = .infinite negative' ↔
        negative = negative' ∧ 2 ^ 1024 - 2 ^ 970 ≤ a) ∧
      (a < 2 ^ 1024 - 2 ^ 970 →
        (Binary64.ofDecimal negative significand exponent).IsNearest (signed negative a)) := by
  have hsteps : decimalSteps significand exponent = a * stepsPerOne := by rw [decimalSteps, ha]
  have hlimit : (overflowUnits : ℚ) ≤ decimalSteps significand exponent ↔
      2 ^ 1024 - 2 ^ 970 ≤ a := by
    rw [hsteps, overflowUnits_eq]
    exact mul_le_mul_iff_left₀ stepsPerOne_pos
  refine ⟨fun negative' => ?_, fun hlt => ?_⟩
  · rw [ofDecimal_eq_infinite_iff, hlimit]
  · rcases ofDecimal_cases negative significand exponent with ⟨m, hm⟩ | hvalue
    · rw [hm]
      have hunits := (ofDecimal_eq_finite_iff.mp hm).2
      rw [hsteps] at hunits
      refine isNearest_finite ?_ negative hunits
      rw [← ha]
      positivity
    · exact absurd (hlimit.mp (ofDecimal_eq_infinite_iff.mp hvalue).2) (not_le_of_gt hlt)

/-- A sign before a positive rational makes it negative exactly if it is a minus. -/
theorem decide_signed_neg (negative : Bool) {a : ℚ} (ha : 0 < a) :
    decide (signed negative a < 0) = negative := by
  cases negative
  · exact decide_eq_false (not_lt_of_gt ha)
  · exact decide_eq_true (neg_lt_zero.mpr ha)

/-- A number term has a value only if its text is a decimal or a word. The value of a decimal is the
double nearest to the written number, of two the even one, or an infinity if that number is halfway to
the limit or more. It has the sign that is written, also if it is zero. -/
theorem number_nearest (text : String) :
    ((Term.number text).value ≠ none →
      (∃ negative q, WritesDecimal text.toList negative q) ∨ WritesWord text.toList) ∧
    ∀ negative q, WritesDecimal text.toList negative q →
      ∃ x, (Term.number text).value = some x ∧ x.signBit = negative ∧
        (x = .infinite (q < 0) ↔ 2 ^ 1024 - 2 ^ 970 ≤ |q|) ∧
        (|q| < 2 ^ 1024 - 2 ^ 970 → x.IsNearest q) := by
  constructor
  · intro hvalue
    obtain ⟨x, hx⟩ := Option.ne_none_iff_exists'.mp hvalue
    obtain ⟨numeral, hnumeral, -⟩ := Option.map_eq_some_iff.mp hx
    rcases writesDecimal_of_ofString? hnumeral with hword | ⟨negative, _, _, -, hdecimal⟩
    · exact .inr hword
    · exact .inl ⟨negative, _, hdecimal⟩
  · intro negative q h
    obtain ⟨significand, exponent, hnumeral, rfl⟩ := h.ofString?
    have hnonneg : (0 : ℚ) ≤ significand * 10 ^ exponent := by positivity
    have hlimit : (0 : ℚ) < 2 ^ 1024 - 2 ^ 970 :=
      sub_pos.mpr (pow_lt_pow_right₀ (by norm_num) (by norm_num))
    obtain ⟨hinfinite, hnearest⟩ := ofDecimal_nearest negative significand exponent rfl
    refine ⟨.ofDecimal negative significand exponent, ?_, signBit_ofDecimal _ _ _, ?_, ?_⟩
    · rw [Term.number, Binary64.ofString?, hnumeral]
      rfl
    · rw [hinfinite, abs_signed, abs_of_nonneg hnonneg]
      refine and_iff_right_of_imp fun hle => ?_
      rw [decide_signed_neg negative (hlimit.trans_le hle)]
    · rw [abs_signed, abs_of_nonneg hnonneg]
      exact hnearest

/-- Six tenths of the least double above zero are rounded to that double. -/
theorem number_nearest_least :
    WritesDecimal " -.3E-3_23".toList true (-(3 / 10 * 10 ^ (-323 : Int))) ∧
      ∃ x, (Term.number " -.3E-3_23").value = some x ∧ x.toBits = 0x8000000000000001 ∧
        x.IsNearest (-(3 / 10 * 10 ^ (-323 : Int))) := by
  have hfraction : WritesDigits ['3'] [3] := .next rfl .nil
  have hexponent : WritesDigits ['3', '_', '2', '3'] [3, 2, 3] :=
    .joined rfl (.next rfl (.next rfl .nil)) (by decide)
  have hbefore : Blanks [' '] := List.forall_mem_singleton.mpr rfl
  have hafter : Blanks [] := fun _ h => nomatch h
  have hwritten := WritesDecimal.mk hbefore hafter .minus (.pointed .nil hfraction (by decide))
    (.marked (.inr rfl) .minus hexponent (by decide))
  have hvalue : signed Sign.minus.isNegative ((wholeValue [] + fractionValue [3]) *
      10 ^ (if Sign.minus.isNegative then -(wholeValue [3, 2, 3] : Int) else wholeValue [3, 2, 3])) =
      -(3 / 10 * 10 ^ (-323 : Int)) := by
    simp [signed, Sign.isNegative, wholeValue, fractionValue]
  rw [hvalue] at hwritten
  have hsmall : |(-(3 / 10 * 10 ^ (-323 : Int)) : ℚ)| < 2 ^ 1024 - 2 ^ 970 := by
    have hpower : (10 : ℚ) ^ (-323 : Int) ≤ 1 := zpow_le_one_of_nonpos₀ (by norm_num) (by norm_num)
    have hdouble : (2 : ℚ) ^ (970 + 1) < 2 ^ 1024 := pow_lt_pow_right₀ (by norm_num) (by norm_num)
    have hone : (1 : ℚ) ≤ 2 ^ 970 := one_le_pow₀ (by norm_num)
    rw [pow_succ] at hdouble
    rw [abs_neg, abs_of_nonneg (by positivity)]
    generalize (2 : ℚ) ^ 970 = low at hdouble hone ⊢
    generalize (2 : ℚ) ^ 1024 = limit at hdouble ⊢
    generalize (10 : ℚ) ^ (-323 : Int) = power at hpower ⊢
    linarith
  obtain ⟨x, hx, -, -, hnearest⟩ := (number_nearest " -.3E-3_23").2 _ _ hwritten
  refine ⟨hwritten, x, hx, ?_, hnearest hsmall⟩
  have hbits : (Term.number " -.3E-3_23").value.map Binary64.toBits = some 0x8000000000000001 := by
    decide +kernel
  rw [hx] at hbits
  exact Option.some.inj hbits

end Reckoner
