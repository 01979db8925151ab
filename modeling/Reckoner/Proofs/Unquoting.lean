import Mathlib.Tactic.Ring
import Reckoner.Proofs.Faults
import Reckoner.Proofs.Printing

/-!
# Quoted text read back

A quoted text is read from its first mark on. A backslash announces an escape, and three escapes announce
the digits of a code point, as many as each of them takes; everything else stands for itself up to the
mark, which must be the last character. Reading undoes quoting, so a quoted text determines the text.

A rejection is described by its message and the quoted expression. What follows a known message is read
back to the expression, or to nothing if none is named. The messages of evaluations hold no colon, so the
first colon of their descriptions ends the message, and the description tells the rejection.
-/

namespace Reckoner

namespace Text

/-- The value of a hexadecimal digit in lower case. -/
def hexValue? (c : Char) : Option Nat :=
  (List.range 16).find? (Nat.digitChar · = c)

/-- How many digits of a code point an escape announces. -/
def codeWidth? (c : Char) : Option Nat :=
  if c = 'x' then some 2 else if c = 'u' then some 4 else if c = 'U' then some 8 else none

/-- The character that an escape without digits stands for. -/
def unescapeChar (c : Char) : Char :=
  if c = 'n' then '\n' else if c = 'r' then '\r' else if c = 't' then '\t' else c

/-- What comes next in a quoted text: any character, an escape, or a digit of a code point, with the
number of digits behind it and the value of those before it. -/
inductive Expected where
  | any
  | escape
  | digit (others value : Nat)

/-- Read a quoted text without its first mark; nothing may follow the mark at its end. -/
def unescape (mark : Char) : Expected → List Char → Option (List Char)
  | _, [] => none
  | .any, c :: rest =>
    if c = '\x5c' then unescape mark .escape rest
    else if c = mark then if rest = [] then some [] else none
    else (unescape mark .any rest).map (c :: ·)
  | .escape, c :: rest =>
    match codeWidth? c with
    | some width => unescape mark (.digit (width - 1) 0) rest
    | none => (unescape mark .any rest).map (unescapeChar c :: ·)
  | .digit others value, c :: rest =>
    (hexValue? c).bind fun digit =>
      match others with
      | 0 => (unescape mark .any rest).map (Char.ofNat (16 * value + digit) :: ·)
      | others + 1 => unescape mark (.digit others (16 * value + digit)) rest

/-- Read a quoted text. -/
def unquote? (text : String) : Option String :=
  match text.toList with
  | [] => none
  | mark :: rest =>
    if mark = '\x27' ∨ mark = '\x22' then (unescape mark .any rest).map String.ofList else none

/-- The hexadecimal digits have their values. -/
theorem hexValue?_digitChar {digit : Nat} (h : digit < 16) :
    hexValue? (Nat.digitChar digit) = some digit := by
  revert digit
  decide

/-- The last digits of a number are read to its remainder, behind the digits before them. -/
theorem unescape_hexDigits (mark : Char) (width others value n : Nat) (rest : List Char) :
    unescape mark (.digit (width + others) value) (hexDigits width n ++ rest) =
      unescape mark (.digit others (value * 16 ^ width + n % 16 ^ width)) rest := by
  induction width generalizing others n rest with
  | zero => simp [hexDigits, Nat.mod_one]
  | succ width ih =>
    have hvalue : 16 * (value * 16 ^ width + n / 16 % 16 ^ width) + n % 16 =
        value * 16 ^ (width + 1) + n % 16 ^ (width + 1) := by
      rw [Nat.pow_succ', Nat.mod_mul]
      ring
    rw [hexDigits, List.append_assoc, Nat.add_assoc, Nat.add_comm 1 others, ih, List.singleton_append,
      unescape, hexValue?_digitChar (Nat.mod_lt n (by omega)), Option.bind_some, hvalue]

/-- A code point is read from its digits. -/
theorem unescape_code (mark : Char) {width n : Nat} (h : n < 16 ^ (width + 1)) (rest : List Char) :
    unescape mark (.digit width 0) (hexDigits (width + 1) n ++ rest) =
      (unescape mark .any rest).map (Char.ofNat n :: ·) := by
  have hvalue : 16 * (0 * 16 ^ width + n / 16 % 16 ^ width) + n % 16 = n := by
    have hhigh : n / 16 < 16 ^ width := by
      rw [Nat.pow_succ] at h
      exact Nat.div_lt_of_lt_mul (by omega)
    rw [Nat.mod_eq_of_lt hhigh]
    omega
  have hread := unescape_hexDigits mark width 0 0 (n / 16) (Nat.digitChar (n % 16) :: rest)
  rw [Nat.add_zero] at hread
  rw [hexDigits, List.append_assoc, List.singleton_append, hread, unescape,
    hexValue?_digitChar (Nat.mod_lt n (by omega)), Option.bind_some, hvalue]

/-- A code point has at most six hexadecimal digits. -/
theorem toNat_lt (c : Char) : c.toNat < 16 ^ 6 := by
  have hvalid := c.valid
  simp only [UInt32.isValidChar, Nat.isValidChar] at hvalid
  change c.val.toNat < 16 ^ 6
  omega

/-- A written character is read as itself. -/
theorem unescape_escapeChar {mark : Char} (hmark : mark = '\x27' ∨ mark = '\x22') (c : Char)
    (rest : List Char) :
    unescape mark .any (escapeChar mark c ++ rest) = (unescape mark .any rest).map (c :: ·) := by
  have hbackslash (text : List Char) :
      unescape mark .any ('\x5c' :: text) = unescape mark .escape text := by
    rw [unescape, if_pos rfl]
  have hletter (letter : Char) (hnone : codeWidth? letter = none) :
      unescape mark .any (['\x5c', letter] ++ rest) =
        (unescape mark .any rest).map (unescapeChar letter :: ·) := by
    rw [List.cons_append, hbackslash, List.singleton_append, unescape, hnone]
  have hcode (letter : Char) (width : Nat) (hwidth : codeWidth? letter = some (width + 1))
      (hlt : c.toNat < 16 ^ (width + 1)) :
      unescape mark .any ('\x5c' :: letter :: hexDigits (width + 1) c.toNat ++ rest) =
        (unescape mark .any rest).map (c :: ·) := by
    rw [List.cons_append, hbackslash, List.cons_append, unescape, hwidth]
    dsimp only
    rw [Nat.add_sub_cancel, unescape_code mark hlt, Char.ofNat_toNat]
  unfold escapeChar
  split_ifs with hself hnewline hreturn htab _ hnarrow hwide
  · have hplain : codeWidth? c = none ∧ unescapeChar c = c := by
      rcases hself with rfl | rfl
      · rcases hmark with rfl | rfl <;> decide
      · decide
    rw [hletter c hplain.1, hplain.2]
  · rw [hletter 'n' rfl, hnewline]
    rfl
  · rw [hletter 'r' rfl, hreturn]
    rfl
  · rw [hletter 't' rfl, htab]
    rfl
  · rw [List.singleton_append, unescape, if_neg (hself ∘ .inr), if_neg (hself ∘ .inl)]
  · exact hcode 'x' 1 rfl hnarrow
  · exact hcode 'u' 3 rfl hwide
  · exact hcode 'U' 7 rfl (Nat.lt_trans (toNat_lt c) (by decide))

/-- What is written between marks is read back. -/
theorem unescape_flatMap {mark : Char} (hmark : mark = '\x27' ∨ mark = '\x22') (text : List Char) :
    unescape mark .any (text.flatMap (escapeChar mark) ++ [mark]) = some text := by
  induction text with
  | nil =>
    have hne : mark ≠ '\x5c' := by rcases hmark with rfl | rfl <;> decide
    rw [List.flatMap_nil, List.nil_append, unescape, if_neg hne, if_pos rfl, if_pos rfl]
  | cons c text ih =>
    rw [List.flatMap_cons, List.append_assoc, unescape_escapeChar hmark, ih, Option.map_some]

/-- A quoted text is read back. -/
theorem unquote?_quote (text : String) : unquote? (quote text) = some text := by
  have hmark : quoteMark text.toList = '\x27' ∨ quoteMark text.toList = '\x22' := by
    unfold quoteMark
    split
    · exact .inr rfl
    · exact .inl rfl
  rw [unquote?, quote, String.toList_ofList, quoteChars]
  dsimp only
  rw [if_pos hmark, unescape_flatMap hmark, Option.map_some, String.ofList_toList]

end Text

namespace Rejection

/-- The expression that a description names, read from what follows the message and the separator. -/
def expressionAfter (message description : String) : Option String :=
  Text.unquote? (.ofList (description.toList.drop (message.toList.length + 2)))

/-- The expression is read back from the description behind the message. -/
theorem expressionAfter_description (r : Rejection) :
    expressionAfter r.message r.description = r.expression := by
  unfold expressionAfter description
  cases r.expression with
  | none => simp [Text.unquote?, List.drop_eq_nil_of_le]
  | some text =>
    have hdrop : (r.message ++ ": " ++ Text.quote text).toList.drop (r.message.toList.length + 2) =
        (Text.quote text).toList := by
      rw [String.toList_append, String.toList_append, List.drop_left']
      simp
    dsimp only
    rw [hdrop, String.ofList_toList, Text.unquote?_quote]

end Rejection

/-- A text is cut off before the first element that fails a test. -/
theorem takeWhile_append_cons {α : Type} {test : α → Bool} {first : List α} {a : α}
    (hfirst : ∀ b ∈ first, test b = true) (ha : test a = false) (rest : List α) :
    (first ++ a :: rest).takeWhile test = first := by
  rw [List.takeWhile_append_of_pos hfirst, List.takeWhile_cons_of_neg (by simp [ha]), List.append_nil]

/-- Texts differ if one does not start as the other does. -/
theorem append_ne_of_not_start {start rest text : String} (h : ¬ start.toList <+: text.toList) :
    start ++ rest ≠ text := by
  rintro rfl
  exact h ⟨rest.toList, String.toList_append.symm⟩

/-- The message about leftovers differs from all that do not start as it does. -/
theorem message_leftover_ne {count : Nat} {message : String}
    (h : ¬ "Stack has ".toList <+: message.toList) : (Fault.leftover count).message ≠ message := by
  change "Stack has " ++ toString count ++ " elements after evaluation, expected 1" ≠ message
  rw [String.append_assoc]
  exact append_ne_of_not_start h

/-- A number is written without a colon. -/
theorem colon_notMem_toString (n : Nat) : ':' ∉ (toString n).toList := by
  rw [Nat.toString_eq_repr, Nat.toList_repr]
  exact fun hmem => absurd (isDigit_of_mem_toDigits ':' hmem) (by decide)

/-- The messages of the faults that occur hold no colon. -/
theorem Fault.Occurs.colon_notMem {options : Options} {fault : Fault} (h : fault.Occurs options) :
    ':' ∉ fault.message.toList := by
  cases h with
  | unmatchedClosing => decide
  | missingOperands op => cases op <;> decide
  | emptyStack => decide
  | @leftover count =>
    change ':' ∉ ("Stack has " ++ toString count ++ " elements after evaluation, expected 1").toList
    rw [String.toList_append, String.toList_append, List.mem_append, List.mem_append]
    rintro ((hmem | hmem) | hmem)
    · exact absurd hmem (by decide)
    · exact colon_notMem_toString count hmem
    · exact absurd hmem (by decide)

/-- The messages of the faults that occur are none of a plainly invalid text. -/
theorem Fault.Occurs.message_ne_invalid {options : Options} {fault : Fault}
    (h : fault.Occurs options) : fault.message ≠ "Invalid Expression" := by
  cases h with
  | unmatchedClosing => decide
  | missingOperands op => cases op <;> decide
  | emptyStack => decide
  | leftover => exact message_leftover_ne (by decide)

/-- A rejected evaluation names its text, and its message holds no colon and tells its kind. -/
theorem rejection_of_evaluate_error {options : Options} {text : String} {r : Rejection}
    (h : (evaluate options text).result = .error r) :
    ':' ∉ r.message.toList ∧ r.expression = some text ∧
      r.kind = if r.message = "Invalid Expression" then .invalid else .malformed := by
  by_cases hvalid : objection? options.strictNesting (scan text) = none
  · obtain ⟨fault, hoccurs, rfl⟩ := exists_occurs_of_evaluate_error hvalid h
    exact ⟨hoccurs.colon_notMem, rfl, (if_neg hoccurs.message_ne_invalid).symm⟩
  · rw [evaluate_of_objection hvalid] at h
    cases h
    have hcolon : ':' ∉ "Invalid Expression".toList := by decide
    exact ⟨hcolon, rfl, rfl⟩

/-- The first colon of a description ends the message, if that holds none. -/
theorem message_eq_of_description_eq {r r' : Rejection} {text text' : String}
    (hcolon : ':' ∉ r.message.toList) (hcolon' : ':' ∉ r'.message.toList)
    (htext : r.expression = some text) (htext' : r'.expression = some text')
    (h : r.description = r'.description) : r.message = r'.message := by
  have hcut {r : Rejection} {text : String} (hcolon : ':' ∉ r.message.toList)
      (htext : r.expression = some text) :
      r.description.toList.takeWhile (· ≠ ':') = r.message.toList := by
    have hseparator : ": ".toList = [':', ' '] := rfl
    rw [Rejection.description, htext]
    dsimp only
    rw [String.toList_append, String.toList_append, hseparator, List.append_assoc]
    exact takeWhile_append_cons (fun c hc => decide_eq_true (ne_of_mem_of_not_mem hc hcolon)) rfl _
  rw [← String.toList_inj, ← hcut hcolon htext, h, hcut hcolon' htext']

/-- A description determines the expression that a rejection names, whatever the message, and reading
what follows the message gives it back. The description of a rejected evaluation determines the whole
rejection and the text, whatever the options. -/
theorem description_determines :
    (∀ kind message, (∀ expression, Rejection.expressionAfter message
        (Rejection.mk kind message expression).description = expression) ∧
      Function.Injective fun expression => (Rejection.mk kind message expression).description) ∧
    ∀ options options' text text' r r', (evaluate options text).result = .error r →
      (evaluate options' text').result = .error r' → r.description = r'.description →
        r = r' ∧ text = text' := by
  constructor
  · intro kind message
    have hread (expression : Option String) : Rejection.expressionAfter message
        (Rejection.mk kind message expression).description = expression :=
      Rejection.expressionAfter_description ⟨kind, message, expression⟩
    exact ⟨hread, Function.LeftInverse.injective hread⟩
  · intro options options' text text' r r' h h' hdescription
    obtain ⟨hcolon, htext, hkind⟩ := rejection_of_evaluate_error h
    obtain ⟨hcolon', htext', hkind'⟩ := rejection_of_evaluate_error h'
    have hmessage := message_eq_of_description_eq hcolon hcolon' htext htext' hdescription
    have hexpression : r.expression = r'.expression := by
      rw [← r.expressionAfter_description, hmessage, hdescription, r'.expressionAfter_description]
    have hsame : r = r' := by
      obtain ⟨kind, message, expression⟩ := r
      obtain ⟨kind', message', expression'⟩ := r'
      dsimp only at hmessage hexpression hkind hkind'
      rw [hkind, hkind', hmessage, hexpression]
    refine ⟨hsame, ?_⟩
    rw [htext, htext'] at hexpression
    exact Option.some.inj hexpression

/-- A text that looks like an escape, with a mark and the end of a line behind it, is described alike
under all options, and is read back from the description. -/
theorem description_determines_escape :
    ∃ r r', (evaluate ⟨true, true⟩ "\\x41\x27\n").result = .error r ∧
      (evaluate ⟨false, false⟩ "\\x41\x27\n").result = .error r' ∧ r = r' ∧
        r.description = "Invalid Expression: \x22\\\\x41\x27\\n\x22" ∧
          Rejection.expressionAfter "Invalid Expression" r.description = some "\\x41\x27\n" := by
  let r : Rejection := ⟨.invalid, "Invalid Expression", some "\\x41\x27\n"⟩
  have hstrict : (evaluate ⟨true, true⟩ "\\x41\x27\n").result = .error r :=
    evaluate_of_objection (by decide +kernel)
  have hlax : (evaluate ⟨false, false⟩ "\\x41\x27\n").result = .error r :=
    evaluate_of_objection (by decide +kernel)
  have hdescription : r.description = "Invalid Expression: \x22\\\\x41\x27\\n\x22" := by decide +kernel
  obtain ⟨hread, hsame⟩ := description_determines
  exact ⟨r, r, hstrict, hlax, (hsame _ _ _ _ r r hstrict hlax rfl).1, hdescription,
    (hread .invalid "Invalid Expression").1 _⟩

end Reckoner
