import Reckoner.Proofs.Faults
import Reckoner.Proofs.Outcome

/-!
# Evaluations under different options

The options decide whether a text has a value, never which. Strict nesting refuses nothing that has
a value without it, for what it refuses alone closes a group that is not open, and the yard refuses
that as well. Allowing leftovers gives values to more texts, and to those with several values left
the product of these.
-/

namespace Reckoner

/-- What is settled for stays settled for when leftovers are allowed. -/
theorem settle_of_imp {allowPartial allowPartial' : Bool} {values : List Binary64} {answer : Answer}
    (h : settle allowPartial values = .ok answer)
    (hallow : allowPartial = true → allowPartial' = true) :
    settle allowPartial' values = .ok answer := by
  match values with
  | [] => cases h
  | [_] => exact h
  | _ :: _ :: _ =>
    cases allowPartial with
    | false => cases h
    | true => rwa [hallow rfl]

/-- A text keeps its value under any nesting rule and if leftovers become allowed. -/
theorem evaluate_eq_ok_of_imp {options options' : Options} {text : String} {value : Binary64}
    (h : (evaluate options text).result = .ok value)
    (hallow : options.allowPartial = true → options'.allowPartial = true) :
    (evaluate options' text).result = .ok value := by
  obtain ⟨hvalid, trees, answer, horder, hsettle, hvalue⟩ := evaluate_eq_ok_iff.mp h
  obtain ⟨hterms, hcount, _⟩ := objection?_eq_none_iff.mp hvalid
  have hvalid' : objection? options'.strictNesting (scan text) = none :=
    objection?_eq_none_iff.mpr
      ⟨hterms, hcount, fun _ => not_closesUnopened_of_toPostfix horder⟩
  exact evaluate_eq_ok_iff.mpr
    ⟨hvalid', trees, answer, horder, settle_of_imp hsettle hallow, hvalue⟩

/-- Admissible terms with equal counts of parentheses that close a group before it is open. -/
structure Misnested (terms : List Term) : Prop where
  admissible : ∀ t ∈ terms, t.Admissible
  count_eq : openingCount terms = closingCount terms
  closesUnopened : ClosesUnopened 0 terms

/-- Strict nesting objects to misnested terms, and only to them where there is no objection
without it. -/
theorem objection?_true_eq_none_iff {terms : List Term} :
    objection? true terms = none ↔ objection? false terms = none ∧ ¬ Misnested terms := by
  rw [objection?_eq_none_iff, objection?_false_eq_none_iff]
  constructor
  · rintro ⟨hterms, hcount, hcloses⟩
    exact ⟨⟨hterms, hcount⟩, fun hmisnested => hcloses rfl hmisnested.closesUnopened⟩
  · rintro ⟨⟨hterms, hcount⟩, hmisnested⟩
    exact ⟨hterms, hcount, fun _ hcloses => hmisnested ⟨hterms, hcount, hcloses⟩⟩

/-- Misnested terms are plainly invalid under strict nesting and unmatched without it. -/
theorem evaluate_of_misnested {text : String} (h : Misnested (scan text)) (allowPartial : Bool) :
    (evaluate ⟨allowPartial, true⟩ text).result =
        .error ⟨.invalid, "Invalid Expression", some text⟩ ∧
      (evaluate ⟨allowPartial, false⟩ text).result =
        .error ⟨.malformed, "Unmatched closing parenthesis", some text⟩ := by
  have hstrict : objection? true (scan text) ≠ none := fun hnone =>
    (objection?_true_eq_none_iff.mp hnone).2 h
  have hloose : objection? false (scan text) = none :=
    objection?_false_eq_none_iff.mpr ⟨h.admissible, h.count_eq⟩
  refine ⟨evaluate_of_objection hstrict, ?_⟩
  rw [evaluate_of_valid hloose, toPostfix_of_closesUnopened h.admissible h.closesUnopened]
  rfl

/-- Unless its terms are misnested, the outcome of a text does not depend on the nesting rule. -/
theorem evaluate_strict_eq_loose {text : String} (h : ¬ Misnested (scan text))
    (allowPartial : Bool) :
    (evaluate ⟨allowPartial, true⟩ text).result = (evaluate ⟨allowPartial, false⟩ text).result := by
  by_cases hloose : objection? false (scan text) = none
  · rw [evaluate_of_valid (objection?_true_eq_none_iff.mpr ⟨hloose, h⟩), evaluate_of_valid hloose]
  · have hstrict : objection? true (scan text) ≠ none := fun hnone =>
      hloose (objection?_true_eq_none_iff.mp hnone).1
    rw [evaluate_of_objection hstrict, evaluate_of_objection hloose]

/-- Several values are refused where leftovers are not allowed. -/
theorem settle_false_of_two_le {values : List Binary64} (h : 2 ≤ values.length) :
    settle false values = .error (.leftover values.length) := by
  match values, h with
  | _ :: _ :: _, _ => rfl

/-- A text that has a value only while leftovers are allowed leaves several values, and their
product is its value. -/
theorem evaluate_of_leftovers {strict : Bool} {text : String} {value : Binary64} {r : Rejection}
    (hallowed : (evaluate ⟨true, strict⟩ text).result = .ok value)
    (hrefused : (evaluate ⟨false, strict⟩ text).result = .error r) :
    ∃ ordered values, toPostfix (scan text) = .ok ordered ∧ leftovers ordered = .ok values ∧
      2 ≤ values.length ∧ value = Binary64.product values ∧
        r = ⟨.malformed, (Fault.leftover values.length).message, some text⟩ := by
  obtain ⟨hvalid, trees, answer, horder, hsettle, rfl⟩ := evaluate_eq_ok_iff.mp hallowed
  change objection? (Options.mk false strict).strictNesting (scan text) = none at hvalid
  have hleft := leftovers_eq_ok_iff.mpr ⟨trees, rfl, rfl⟩
  refine ⟨_, _, horder, hleft, ?_⟩
  rcases settle_true_eq_ok hsettle with ⟨single, hsingle, rfl⟩ | ⟨hlength, rfl⟩
  · -- a single value would be settled for without leftovers too
    have hvalue : (evaluate ⟨false, strict⟩ text).result = .ok single :=
      evaluate_eq_ok_iff.mpr ⟨hvalid, trees, .single single, horder, by rw [hsingle]; rfl, rfl⟩
    rw [hvalue] at hrefused
    cases hrefused
  · refine ⟨hlength, rfl, ?_⟩
    rw [evaluate_of_forest hvalid horder, settle_false_of_two_le hlength] at hrefused
    cases hrefused
    rfl

/-- All values that a text has under any options are one. Under either rule for leftovers it has a
value under strict nesting exactly if it has one without it, and fails alike, unless its terms are
misnested: then it is plainly invalid under strict nesting and unmatched without it. A value without
leftovers stays the value when leftovers are allowed, and a value only then is the product, from left
to right, of the several values that are refused as leftovers otherwise. -/
theorem evaluate_agrees_under_options (text : String) :
    (∀ options options' value value', (evaluate options text).result = .ok value →
        (evaluate options' text).result = .ok value' → value = value') ∧
      (∀ allowPartial,
        ((∃ value, (evaluate ⟨allowPartial, true⟩ text).result = .ok value) ↔
          ∃ value, (evaluate ⟨allowPartial, false⟩ text).result = .ok value) ∧
        (¬ Misnested (scan text) →
          (evaluate ⟨allowPartial, true⟩ text).result =
            (evaluate ⟨allowPartial, false⟩ text).result) ∧
        (Misnested (scan text) →
          (evaluate ⟨allowPartial, true⟩ text).result =
              .error ⟨.invalid, "Invalid Expression", some text⟩ ∧
            (evaluate ⟨allowPartial, false⟩ text).result =
              .error ⟨.malformed, "Unmatched closing parenthesis", some text⟩)) ∧
      ∀ strict,
        (∀ value, (evaluate ⟨false, strict⟩ text).result = .ok value →
          (evaluate ⟨true, strict⟩ text).result = .ok value) ∧
        ∀ value r, (evaluate ⟨true, strict⟩ text).result = .ok value →
          (evaluate ⟨false, strict⟩ text).result = .error r →
          ∃ ordered values, toPostfix (scan text) = .ok ordered ∧ leftovers ordered = .ok values ∧
            2 ≤ values.length ∧ value = Binary64.product values ∧
              r = ⟨.malformed, "Stack has " ++ toString values.length ++
                " elements after evaluation, expected 1", some text⟩ := by
  refine ⟨fun options options' value value' h h' => ?_, fun allowPartial => ⟨⟨?_, ?_⟩, ?_, ?_⟩,
    fun strict => ⟨fun value h => ?_, fun value r hallowed hrefused => ?_⟩⟩
  · have hallowed : (evaluate ⟨true, true⟩ text).result = .ok value :=
      evaluate_eq_ok_of_imp h fun _ => rfl
    rw [evaluate_eq_ok_of_imp h' fun _ => rfl] at hallowed
    cases hallowed
    rfl
  · rintro ⟨value, h⟩
    exact ⟨value, evaluate_eq_ok_of_imp h id⟩
  · rintro ⟨value, h⟩
    exact ⟨value, evaluate_eq_ok_of_imp h id⟩
  · exact fun h => evaluate_strict_eq_loose h allowPartial
  · exact fun h => evaluate_of_misnested h allowPartial
  · exact evaluate_eq_ok_of_imp h fun _ => rfl
  · exact evaluate_of_leftovers hallowed hrefused

/-- The text `)1+2(` is misnested, and `(2)(3)` has two leftovers whose product is six. -/
theorem evaluate_agrees_under_options_leftovers :
    (evaluate ⟨true, true⟩ ")1+2(").result =
        .error ⟨.invalid, "Invalid Expression", some ")1+2("⟩ ∧
      (evaluate ⟨true, false⟩ ")1+2(").result =
        .error ⟨.malformed, "Unmatched closing parenthesis", some ")1+2("⟩ ∧
      (evaluate ⟨true, false⟩ "(2)(3)").result = .ok (.ofDecimal false 6 0) ∧
      ∃ ordered values, toPostfix (scan "(2)(3)") = .ok ordered ∧
        leftovers ordered = .ok values ∧ 2 ≤ values.length ∧
          .ofDecimal false 6 0 = Binary64.product values := by
  have hmisnested : Misnested (scan ")1+2(") := by
    have hscan : scan ")1+2(" = [.paren ")", .number "1", .operator "+", .number "2", .paren "("] :=
      by decide +kernel
    have hvalid : objection? false (scan ")1+2(") = none := by decide +kernel
    obtain ⟨hterms, hcount⟩ := objection?_false_eq_none_iff.mp hvalid
    refine ⟨hterms, hcount, [.paren ")"], ?_, by decide +kernel⟩
    rw [hscan]
    exact ⟨_, rfl⟩
  have hsix : (evaluate ⟨true, false⟩ "(2)(3)").result = .ok (.ofDecimal false 6 0) :=
    eq_ok_of_toOption (by decide +kernel)
  have hrefused : (evaluate ⟨false, false⟩ "(2)(3)").result.toOption = none := by decide +kernel
  obtain ⟨hinvalid, hunmatched⟩ :=
    ((evaluate_agrees_under_options ")1+2(").2.1 true).2.2 hmisnested
  refine ⟨hinvalid, hunmatched, hsix, ?_⟩
  cases hresult : (evaluate ⟨false, false⟩ "(2)(3)").result with
  | ok value =>
    rw [hresult] at hrefused
    cases hrefused
  | error r =>
    obtain ⟨ordered, values, horder, hleft, hlength, hvalue, _⟩ :=
      ((evaluate_agrees_under_options "(2)(3)").2.2 false).2 _ r hsix hresult
    exact ⟨ordered, values, horder, hleft, hlength, hvalue⟩

end Reckoner
