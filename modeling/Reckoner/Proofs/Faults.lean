import Reckoner.Evaluation
import Reckoner.Proofs.Balance

/-!
# Faults of an evaluation

Which faults an evaluation can run into, for every text and all options. A text is plainly invalid
exactly if its terms raise an objection. Past the judgement four faults are left: a group that is
closed before it is open, an operator that lacks an operand, no value at all, and leftover values
that must not be multiplied. The others are there for sequences that were never judged: the judgement
lets only admissible terms pass, it leaves no group open, and putting terms into postfix order adds
none, so no stage finds an operator it does not know, a number without a value, or a term out of
place.
-/

namespace Reckoner

/-- A text whose terms raise an objection is plainly invalid. -/
theorem evaluate_of_objection {options : Options} {text : String}
    (h : objection? options.strictNesting (scan text) ≠ none) :
    (evaluate options text).result = .error ⟨.invalid, "Invalid Expression", some text⟩ := by
  obtain ⟨objection, hobjection⟩ := Option.ne_none_iff_exists'.mp h
  unfold evaluate
  simp only [hobjection]
  rfl

/-- Without an objection, the answer or the fault of the two later stages is the outcome. -/
theorem evaluate_of_valid {options : Options} {text : String}
    (h : objection? options.strictNesting (scan text) = none) :
    (evaluate options text).result =
      match toPostfix (scan text) >>= reduce options.allowPartial with
      | .ok answer => .ok answer.value
      | .error fault => .error (fault.rejection.about text) := by
  unfold evaluate
  simp only [h]
  cases hordered : toPostfix (scan text) with
  | error fault => rfl
  | ok ordered =>
    have hbind : (Except.ok ordered >>= reduce options.allowPartial) =
        reduce options.allowPartial ordered := rfl
    rw [hbind]
    dsimp only
    cases reduce options.allowPartial ordered <;> rfl

/-- If the postfix order of a valid text is a row of post-orders, the outcome is what the values of its
trees are settled for. -/
theorem evaluate_of_forest {options : Options} {text : String} {trees : List Tree}
    (hvalid : objection? options.strictNesting (scan text) = none)
    (horder : toPostfix (scan text) = .ok (trees.flatMap Tree.postorder)) :
    (evaluate options text).result =
      match settle options.allowPartial (trees.map Tree.value) with
      | .ok answer => .ok answer.value
      | .error fault => .error (fault.rejection.about text) := by
  have hanswer : (toPostfix (scan text) >>= reduce options.allowPartial) =
      settle options.allowPartial (trees.map Tree.value) := by
    rw [horder]
    exact reduce_forest options.allowPartial trees
  have hresult := evaluate_of_valid hvalid
  rw [hanswer] at hresult
  exact hresult

/-- The faults that the terms of a text can run into once they are found valid. -/
inductive Fault.Occurs (options : Options) : Fault → Prop
  | unmatchedClosing (hstrict : options.strictNesting = false) : Occurs options .unmatchedClosing
  | missingOperands (op : Operator) : Occurs options (.missingOperands op.symbol)
  | emptyStack : Occurs options .emptyStack
  | leftover {count : Nat} (hpartial : options.allowPartial = false) (hcount : 2 ≤ count) :
      Occurs options (.leftover count)

/-- Every fault that occurs makes a sequence malformed. -/
theorem Fault.Occurs.kind_eq {options : Options} {fault : Fault} (h : fault.Occurs options) :
    fault.kind = .malformed := by
  cases h <;> rfl

/-- Valid terms that cannot be put into postfix order close a group that is not open, which strict
nesting rules out. -/
theorem occurs_of_toPostfix_error {options : Options} {terms : List Term} {fault : Fault}
    (hvalid : objection? options.strictNesting terms = none) (h : toPostfix terms = .error fault) :
    fault.Occurs options := by
  obtain ⟨hterms, hcount, hcloses⟩ := objection?_eq_none_iff.mp hvalid
  rcases toPostfix_eq_error hterms h with ⟨rfl, hopen⟩ | ⟨_, _, hlt⟩
  · exact .unmatchedClosing (Bool.eq_false_iff.mpr fun hstrict => hcloses hstrict hopen)
  · omega

/-- A term that is no parenthesis can only be refused because it is an operator that lacks an
operand. -/
theorem occurs_of_reduceStep_error {options : Options} {stack : List Binary64} {t : Term}
    {fault : Fault} (hterm : t.Admissible) (hparenthesis : t.isParenthesis = false)
    (h : reduceStep stack t = .error fault) : fault.Occurs options := by
  rcases hterm with hkind | hkind | ⟨x, rfl⟩ | ⟨c, rfl⟩
  · simp [Term.isParenthesis, hkind] at hparenthesis
  · simp [Term.isParenthesis, hkind] at hparenthesis
  · rw [reduceStep_operand] at h
    cases h
  · rcases reduceStep_eq_error h with ⟨hkind, _⟩ | ⟨_, hkind, _⟩ | ⟨_, hop, _⟩ | ⟨_, _, _, rfl⟩
    · rw [c.kind_term] at hkind
      cases hkind
    · exact absurd c.kind_term hkind
    · rw [c.writes] at hop
      cases hop
    · rw [(Term.operator?_eq_some_iff.mp c.writes).2]
      exact .missingOperands c.op

/-- Values that are not settled for are none, or several that must not be multiplied. -/
theorem occurs_of_settle_error {options : Options} {values : List Binary64} {fault : Fault}
    (h : settle options.allowPartial values = .error fault) : fault.Occurs options := by
  match values with
  | [] =>
    cases h
    exact .emptyStack
  | [_] => cases h
  | first :: second :: rest =>
    cases hpartial : options.allowPartial with
    | true => simp [settle, hpartial] at h
    | false =>
      simp only [settle, hpartial] at h
      cases h
      exact .leftover hpartial (by simp)

/-- A postfix order of valid terms that cannot be worked off lacks an operand or leaves too few or
too many values. -/
theorem occurs_of_reduce_error {options : Options} {terms : List Term} {fault : Fault}
    (hterms : ∀ t ∈ terms, t.Admissible ∧ t.isParenthesis = false)
    (h : reduce options.allowPartial terms = .error fault) : fault.Occurs options := by
  rcases bind_eq_error_iff.mp h with hleft | ⟨values, _, hsettle⟩
  · rcases bind_eq_error_iff.mp hleft with hrun | ⟨stack, _, hvalues⟩
    · obtain ⟨first, t, rest, stack, rfl, _, hstep⟩ := exists_step_of_foldlM_error hrun
      obtain ⟨hterm, hparenthesis⟩ := hterms t (by simp)
      exact occurs_of_reduceStep_error hterm hparenthesis hstep
    · cases hvalues
  · exact occurs_of_settle_error hsettle

/-- Valid terms run only into faults that occur. -/
theorem occurs_of_error {options : Options} {terms : List Term} {fault : Fault}
    (hvalid : objection? options.strictNesting terms = none)
    (h : (toPostfix terms >>= reduce options.allowPartial) = .error fault) :
    fault.Occurs options := by
  rcases bind_eq_error_iff.mp h with hunordered | ⟨ordered, hordered, hreduce⟩
  · exact occurs_of_toPostfix_error hvalid hunordered
  · refine occurs_of_reduce_error (fun t ht => ?_) hreduce
    obtain ⟨hmem, hparenthesis⟩ := List.mem_filter.mp ((perm_of_toPostfix hordered).mem_iff.mp ht)
    exact ⟨(objection?_eq_none_iff.mp hvalid).1 t hmem, by simpa using hparenthesis⟩

/-- A malformed sequence is rejected with the message of its fault and the text. -/
theorem about_rejection_of_malformed {fault : Fault} (h : fault.kind = .malformed)
    (text : String) : fault.rejection.about text = ⟨.malformed, fault.message, some text⟩ := by
  simp [Rejection.about, Fault.rejection, h]

/-- A valid text that has no value is malformed, by one of the faults that occur. -/
theorem exists_occurs_of_evaluate_error {options : Options} {text : String} {r : Rejection}
    (hvalid : objection? options.strictNesting (scan text) = none)
    (h : (evaluate options text).result = .error r) :
    ∃ fault : Fault, fault.Occurs options ∧ r = ⟨.malformed, fault.message, some text⟩ := by
  rw [evaluate_of_valid hvalid] at h
  split at h
  · cases h
  · next fault hfault =>
    cases h
    have hoccurs := occurs_of_error hvalid hfault
    exact ⟨fault, hoccurs, about_rejection_of_malformed hoccurs.kind_eq text⟩

/-- A rejected evaluation is invalid or malformed, never a failed look-up or an unknown
operator. -/
theorem kind_of_evaluate_error {options : Options} {text : String} {r : Rejection}
    (h : (evaluate options text).result = .error r) : r.kind = .invalid ∨ r.kind = .malformed := by
  by_cases hvalid : objection? options.strictNesting (scan text) = none
  · obtain ⟨_, _, rfl⟩ := exists_occurs_of_evaluate_error hvalid h
    exact .inr rfl
  · rw [evaluate_of_objection hvalid] at h
    cases h
    exact .inl rfl

/-- An evaluation answers a value or is rejected as invalid or malformed. -/
theorem evaluate_ok_or_rejected (options : Options) (text : String) :
    (∃ value, (evaluate options text).result = .ok value) ∨
      ∃ r, (evaluate options text).result = .error r ∧
        (r.kind = .invalid ∨ r.kind = .malformed) := by
  cases h : (evaluate options text).result with
  | ok value => exact .inl ⟨value, rfl⟩
  | error r => exact .inr ⟨r, rfl, kind_of_evaluate_error h⟩

/-- The messages of the faults that occur. -/
theorem Fault.Occurs.message_cases {options : Options} {fault : Fault} (h : fault.Occurs options) :
    (fault.message = "Unmatched closing parenthesis" ∧ options.strictNesting = false) ∨
      (∃ op : Operator, fault.message = "Insufficient operands for " ++ op.symbol) ∨
      fault.message = "Empty stack after evaluation" ∨
      ∃ count : Nat, 2 ≤ count ∧ options.allowPartial = false ∧ fault.message =
        "Stack has " ++ toString count ++ " elements after evaluation, expected 1" := by
  cases h with
  | unmatchedClosing hstrict => exact .inl ⟨rfl, hstrict⟩
  | missingOperands op => exact .inr (.inl ⟨op, rfl⟩)
  | emptyStack => exact .inr (.inr (.inl rfl))
  | leftover hpartial hcount => exact .inr (.inr (.inr ⟨_, hcount, hpartial, rfl⟩))

/-- A text is plainly invalid exactly if its terms raise an objection. Otherwise it has a value or is
malformed, with one of four messages; every operator in it is known, and neither of the two later
stages runs into a fault that is not one of the four. A rejection names the text itself. -/
theorem evaluate_invalid_or_malformed (options : Options) (text : String) :
    (objection? options.strictNesting (scan text) ≠ none ↔
        (evaluate options text).result = .error ⟨.invalid, "Invalid Expression", some text⟩) ∧
      (objection? options.strictNesting (scan text) = none →
        ((∃ value, (evaluate options text).result = .ok value) ∨
          ∃ message, (evaluate options text).result = .error ⟨.malformed, message, some text⟩ ∧
            ((message = "Unmatched closing parenthesis" ∧ options.strictNesting = false) ∨
              (∃ op : Operator, message = "Insufficient operands for " ++ op.symbol) ∨
              message = "Empty stack after evaluation" ∨
              ∃ count : Nat, 2 ≤ count ∧ options.allowPartial = false ∧ message =
                "Stack has " ++ toString count ++ " elements after evaluation, expected 1")) ∧
          (∀ t ∈ scan text, t.kind = .operator → t.operator? ≠ none) ∧
          ∀ fault, (toPostfix (scan text) >>= reduce options.allowPartial) = .error fault →
            fault.Occurs options) := by
  refine ⟨⟨evaluate_of_objection, fun hresult hvalid => ?_⟩, fun hvalid => ⟨?_, ?_, ?_⟩⟩
  · obtain ⟨_, _, heq⟩ := exists_occurs_of_evaluate_error hvalid hresult
    cases heq
  · cases hresult : (evaluate options text).result with
    | ok value => exact .inl ⟨value, rfl⟩
    | error r =>
      obtain ⟨fault, hoccurs, rfl⟩ := exists_occurs_of_evaluate_error hvalid hresult
      exact .inr ⟨fault.message, rfl, hoccurs.message_cases⟩
  · intro t ht hkind
    exact operator?_ne_none_of_admissible ((objection?_eq_none_iff.mp hvalid).1 t ht) hkind
  · exact fun _ hfault => occurs_of_error hvalid hfault

/-- The text `2(3` is plainly invalid, and of the malformed texts `)1+2(` is unmatched without strict
nesting and `(2)(3)` has two leftovers. -/
theorem evaluate_invalid_or_malformed_leftovers :
    (evaluate ⟨true, true⟩ "2(3").result = .error ⟨.invalid, "Invalid Expression", some "2(3"⟩ ∧
      (∃ message, (evaluate ⟨true, false⟩ ")1+2(").result =
        .error ⟨.malformed, message, some ")1+2("⟩) ∧
      ∃ message, (evaluate ⟨false, true⟩ "(2)(3)").result =
        .error ⟨.malformed, message, some "(2)(3)"⟩ := by
  have hmalformed (options : Options) (text : String)
      (hvalid : objection? options.strictNesting (scan text) = none)
      (hnone : (evaluate options text).result.toOption = none) :
      ∃ message, (evaluate options text).result = .error ⟨.malformed, message, some text⟩ := by
    rcases ((evaluate_invalid_or_malformed options text).2 hvalid).1 with
      ⟨value, hvalue⟩ | ⟨message, hresult, _⟩
    · rw [hvalue] at hnone
      cases hnone
    · exact ⟨message, hresult⟩
  exact ⟨(evaluate_invalid_or_malformed ⟨true, true⟩ "2(3").1.mp (by decide +kernel),
    hmalformed _ _ (by decide +kernel) (by decide +kernel),
    hmalformed _ _ (by decide +kernel) (by decide +kernel)⟩

end Reckoner
