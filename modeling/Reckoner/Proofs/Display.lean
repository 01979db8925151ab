import Mathlib.Data.List.Forall2
import Reckoner.Proofs.Printing
import Reckoner.Proofs.Runs
import Reckoner.Proofs.Verdict

/-!
# Reading the log

The terms of an accepted text can be read back from the line that displays them, but for the way their
numbers were written. No display holds a comma or is empty, so the line splits into the displays; and
no display of a number is that of an operator or parenthesis, since it denotes a double. Texts that are
displayed alike are therefore evaluated alike.
-/

namespace Reckoner

/-- The terms that an accepted text is scanned into: numbers with a value, and operators and parentheses
that are one character. -/
inductive Term.Accepted : Term → Prop
  | number {t : Term} {x : Binary64} (h : t.operand? = some x) : Accepted t
  | mark {c : Char} (h : c ∈ marks) : Accepted (.ofChar c)

/-- A text without objection is scanned into accepted terms only. -/
theorem accepted_of_mem_scan {strict : Bool} {text : String}
    (hvalid : objection? strict (scan text) = none) : ∀ t ∈ scan text, t.Accepted := by
  intro t ht
  have hadmissible := (objection?_eq_none_iff.mp hvalid).1 t ht
  by_cases hkind : t.kind = .number
  · obtain ⟨x, hx⟩ := exists_operand?_of_admissible hadmissible hkind
    exact .number hx
  · obtain ⟨c, rfl⟩ := exists_ofChar_of_mem_scan ht hkind
    refine .mark (Classical.byContradiction fun hmark => ?_)
    exact kind_ne_unknown_of_admissible hadmissible (by rw [ofChar_of_notMem_marks hmark, Term.unknown])

/-- A character by itself is no number. -/
theorem operand?_ofChar (c : Char) : (Term.ofChar c).operand? = none :=
  if_neg (kind_ofChar_ne_number c)

/-- A character by itself is displayed as it stands. -/
theorem display_ofChar (c : Char) : (Term.ofChar c).display = .singleton c := by
  rw [Term.display, operand?_ofChar]
  exact text_ofChar c

/-- The term that a display is read as, with the numbers as they are displayed. -/
def Term.ofDisplay (text : String) : Term :=
  match Binary64.ofString? text, text.toList with
  | some x, _ => ⟨.number, text, some x⟩
  | none, [c] => .ofChar c
  | none, _ => .unknown text

/-- The terms that a line with their displays is read as. The separator is a comma and a blank, so with
one more blank in front each display comes after a blank. -/
def Term.ofDisplayAll (line : String) : List Term :=
  let displays := line.toList.tail.dropLast
  if displays = [] then []
  else ((' ' :: displays).splitOn ',').map fun display => ofDisplay (.ofList display.tail)

namespace Term.Accepted

variable {t : Term}

/-- An accepted term is read back from its display. -/
theorem ofDisplay_display (h : t.Accepted) : ofDisplay t.display = t.reprinted := by
  cases h with
  | @number t x hx =>
    obtain ⟨hkind, hvalue⟩ := operand?_eq_some_iff.mp hx
    rw [reprinted_of_operand? hx, display_eq_text hkind hvalue]
    simp only [ofDisplay, x.ofString?_text]
  | @mark c hc =>
    have hall : marks.all (fun c => (Binary64.ofString? (.singleton c)).isNone) = true := by
      decide +kernel
    have hnone := Option.isNone_iff_eq_none.mp (List.all_eq_true.mp hall c hc)
    rw [reprinted_of_operand?_eq_none (operand?_ofChar c), display_ofChar, ofDisplay, hnone,
      String.toList_singleton]

/-- The display of an accepted term is not empty. -/
theorem toList_display_ne_nil (h : t.Accepted) : t.display.toList ≠ [] := by
  cases h with
  | @number t x hx =>
    obtain ⟨hkind, hvalue⟩ := operand?_eq_some_iff.mp hx
    rw [display_eq_text hkind hvalue]
    intro hempty
    have hread := x.ofString?_text
    have hnone : Binary64.ofString? "" = none := by decide +kernel
    rw [String.toList_eq_nil_iff.mp hempty, hnone] at hread
    cases hread
  | @mark c hc =>
    rw [display_ofChar, String.toList_singleton]
    exact List.cons_ne_nil c []

/-- The display of an accepted term holds no comma. -/
theorem comma_notMem_display (h : t.Accepted) : ',' ∉ t.display.toList := by
  cases h with
  | @number t x hx =>
    obtain ⟨hkind, hvalue⟩ := operand?_eq_some_iff.mp hx
    rw [display_eq_text hkind hvalue]
    intro hcomma
    have hchars : x.text.toList = x.chars := String.toList_ofList
    rw [hchars] at hcomma
    exact absurd (x.isPrinted_of_mem_chars ',' hcomma) (by decide)
  | @mark c hc =>
    rw [display_ofChar, String.toList_singleton]
    intro hcomma
    rw [← List.mem_singleton.mp hcomma] at hc
    exact absurd hc (by decide)

end Term.Accepted

/-- A blank before the first of several texts makes the separator a comma alone. -/
theorem cons_intercalate {texts : List (List Char)} (hne : texts ≠ []) :
    ' ' :: [',', ' '].intercalate texts = [','].intercalate (texts.map (' ' :: ·)) := by
  induction texts with
  | nil => exact absurd rfl hne
  | cons first rest ih =>
    cases rest with
    | nil => simp
    | cons second rest =>
      have hrest := ih (List.cons_ne_nil second rest)
      rw [List.map_cons] at hrest
      rw [List.intercalate_cons_cons, List.map_cons, List.map_cons, List.intercalate_cons_cons,
        ← hrest]
      simp

/-- Texts without a comma are split at the commas that separate them. -/
theorem splitOn_cons_intercalate {texts : List (List Char)} (hne : texts ≠ [])
    (hcomma : ∀ text ∈ texts, ',' ∉ text) :
    (' ' :: [',', ' '].intercalate texts).splitOn ',' = texts.map (' ' :: ·) := by
  rw [cons_intercalate hne]
  apply List.splitOn_intercalate
  · intro spaced hspaced hmem
    obtain ⟨text, htext, rfl⟩ := List.mem_map.mp hspaced
    rcases List.mem_cons.mp hmem with hblank | hmem
    · exact absurd hblank (by decide)
    · exact hcomma text htext hmem
  · simpa using hne

/-- Separated texts are empty only if there is none of them, or one that is empty. -/
theorem intercalate_ne_nil {first : List Char} (hfirst : first ≠ []) (rest : List (List Char)) :
    [',', ' '].intercalate (first :: rest) ≠ [] := by
  cases rest with
  | nil => simpa using hfirst
  | cons second rest => simp [List.intercalate_cons_cons]

/-- Between its brackets a line holds the displays. -/
theorem toList_displayAll (terms : List Term) :
    (Term.displayAll terms).toList.tail.dropLast =
      [',', ' '].intercalate (terms.map fun t => t.display.toList) := by
  rw [Term.displayAll, String.toList_append, String.toList_append, String.toList_intercalate,
    List.map_map]
  have hopening : "[".toList = ['['] := by decide +kernel
  have hclosing : "]".toList = [']'] := by decide +kernel
  have hseparator : ", ".toList = [',', ' '] := by decide +kernel
  rw [hopening, hclosing, hseparator, List.singleton_append, List.cons_append, List.tail_cons,
    List.dropLast_concat]
  rfl

/-- Accepted terms are read back from the line that displays them. -/
theorem ofDisplayAll_displayAll {terms : List Term} (h : ∀ t ∈ terms, t.Accepted) :
    Term.ofDisplayAll (Term.displayAll terms) = terms.map Term.reprinted := by
  rw [Term.ofDisplayAll, toList_displayAll]
  cases terms with
  | nil => rfl
  | cons first rest =>
    have hfirst := (h first List.mem_cons_self).toList_display_ne_nil
    have hdisplays : (first :: rest).map (fun t => t.display.toList) ≠ [] := List.cons_ne_nil _ _
    have hline : [',', ' '].intercalate ((first :: rest).map fun t => t.display.toList) ≠ [] :=
      intercalate_ne_nil hfirst _
    have hcomma : ∀ text ∈ (first :: rest).map fun t => t.display.toList, ',' ∉ text := by
      intro text htext
      obtain ⟨t, ht, rfl⟩ := List.mem_map.mp htext
      exact (h t ht).comma_notMem_display
    rw [if_neg hline, splitOn_cons_intercalate hdisplays hcomma, List.map_map, List.map_map]
    refine List.map_congr_left fun t ht => ?_
    simp only [Function.comp_apply, List.tail_cons, String.ofList_toList]
    exact (h t ht).ofDisplay_display

/-- Two accepted texts whose terms are displayed by the same line have as many terms, and position by
position these agree in kind, in value and, unless they are numbers, in text. Under all options the log
tells the same postfix order for both, and they have the same value or are rejected with the same kind
and message. -/
theorem alike_of_displayAll_eq {text₁ text₂ : String} {strict₁ strict₂ : Bool}
    (h₁ : objection? strict₁ (scan text₁) = none) (h₂ : objection? strict₂ (scan text₂) = none)
    (h : Term.displayAll (scan text₁) = Term.displayAll (scan text₂)) :
    List.Forall₂ (fun t u => t.kind = u.kind ∧ t.value = u.value ∧
        (t.kind ≠ .number → t.text = u.text)) (scan text₁) (scan text₂) ∧
      ∀ options,
        (evaluate options text₁).postfixLines = (evaluate options text₂).postfixLines ∧
          (evaluate options text₁).outcome = (evaluate options text₂).outcome := by
  have hread₁ := ofDisplayAll_displayAll (accepted_of_mem_scan h₁)
  have hread₂ := ofDisplayAll_displayAll (accepted_of_mem_scan h₂)
  have hsame : (scan text₁).map Term.reprinted = (scan text₂).map Term.reprinted := by
    rw [← hread₁, h, hread₂]
  refine ⟨?_, fun options => ⟨?_, ?_⟩⟩
  · rw [← List.forall₂_eq_eq_eq, List.forall₂_map_left_iff, List.forall₂_map_right_iff] at hsame
    refine hsame.imp fun t u htu => ?_
    have hkind : t.kind = u.kind := by rw [← t.kind_reprinted, htu, u.kind_reprinted]
    refine ⟨hkind, by rw [← t.value_reprinted, htu, u.value_reprinted], fun hother => ?_⟩
    rw [← Term.text_reprinted hother, htu, Term.text_reprinted (hkind ▸ hother)]
  · rw [postfixLines_evaluate_reprinted, hsame, ← postfixLines_evaluate_reprinted]
  · rw [outcome_evaluate, outcome_evaluate, ← verdict_map_reprinted, hsame, verdict_map_reprinted]

/-- The numbers of `1.50*(+2)` and `1.5*(02.)` are written differently and displayed alike. -/
theorem alike_of_displayAll_eq_zeros :
    objection? true (scan "1.50*(+2)") = none ∧ objection? true (scan "1.5*(02.)") = none ∧
      Term.displayAll (scan "1.50*(+2)") = "[1.5, *, (, 2.0, )]" ∧
      Term.displayAll (scan "1.5*(02.)") = "[1.5, *, (, 2.0, )]" ∧
      scan "1.50*(+2)" ≠ scan "1.5*(02.)" ∧
      (evaluate ⟨false, true⟩ "1.5*(02.)").postfixLines = ["Postfix: [1.5, 2.0, *]"] ∧
      (evaluate ⟨false, true⟩ "1.5*(02.)").outcome = .ok (.ofBits 0x4008000000000000) := by
  have hvalid₁ : objection? true (scan "1.50*(+2)") = none := by decide +kernel
  have hvalid₂ : objection? true (scan "1.5*(02.)") = none := by decide +kernel
  have hline₁ : Term.displayAll (scan "1.50*(+2)") = "[1.5, *, (, 2.0, )]" := by decide +kernel
  have hline₂ : Term.displayAll (scan "1.5*(02.)") = "[1.5, *, (, 2.0, )]" := by decide +kernel
  obtain ⟨_, halike⟩ := alike_of_displayAll_eq hvalid₁ hvalid₂ (hline₁.trans hline₂.symm)
  obtain ⟨hlines, houtcome⟩ := halike ⟨false, true⟩
  refine ⟨hvalid₁, hvalid₂, hline₁, hline₂, by decide +kernel, ?_, ?_⟩
  · rw [← hlines]
    decide +kernel
  · rw [← houtcome]
    exact eq_ok_of_toOption (by decide +kernel)

end Reckoner
