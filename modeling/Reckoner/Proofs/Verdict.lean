import Reckoner.Proofs.Faults

/-!
# The verdict on a sequence of terms

A text has no other part in its evaluation than to be scanned, to be named by a rejection and to be
quoted by the event that reports one. Its terms alone decide the value, the kind and message of a
rejection, and the postfix order that is logged.

Of a number only the value matters. Writing numbers as they are displayed commutes with every stage, so
it changes none of this.
-/

namespace Reckoner

/-- Put terms into postfix order, unless there is an objection to them. -/
def arrange (strict : Bool) (terms : List Term) : Except Fault (List Term) :=
  match objection? strict terms with
  | some _ => .error .invalid
  | none => toPostfix terms

/-- The value of a sequence of terms, or the fault that it runs into. -/
def verdict (options : Options) (terms : List Term) : Except Fault Binary64 :=
  (arrange options.strictNesting terms >>= reduce options.allowPartial).map Answer.value

/-- What a rejection tells without the expression at fault: its kind and its message. -/
def Rejection.cause (r : Rejection) : Rejection.Kind × String :=
  (r.kind, r.message)

/-- The value of an evaluation, or the kind and message of its rejection. -/
def Report.outcome (report : Report) : Except (Rejection.Kind × String) Binary64 :=
  report.result.mapError Rejection.cause

/-- The lines of the log that tell a postfix order. -/
def Report.postfixLines (report : Report) : List String :=
  report.events.filterMap fun event =>
    match event with
    | .postfixOrder _ => some event.message
    | _ => none

/-- Naming the expression at fault changes neither kind nor message. -/
theorem cause_about (r : Rejection) (text : String) : (r.about text).cause = r.cause := by
  unfold Rejection.about
  split <;> rfl

/-- The outcome of an evaluation is the verdict on the terms of the text. -/
theorem outcome_evaluate (options : Options) (text : String) :
    (evaluate options text).outcome =
      (verdict options (scan text)).mapError fun fault => fault.rejection.cause := by
  unfold Report.outcome verdict arrange
  cases hobjection : objection? options.strictNesting (scan text) with
  | some objection =>
    rw [evaluate_of_objection (by simp [hobjection])]
    rfl
  | none =>
    rw [evaluate_of_valid hobjection]
    dsimp only
    cases toPostfix (scan text) >>= reduce options.allowPartial with
    | error fault => exact congrArg Except.error (cause_about fault.rejection text)
    | ok answer => rfl

/-- The postfix order is logged once it is found. -/
theorem postfixLines_evaluate (options : Options) (text : String) :
    (evaluate options text).postfixLines =
      match arrange options.strictNesting (scan text) with
      | .error _ => []
      | .ok ordered => [(Event.postfixOrder ordered).message] := by
  unfold evaluate arrange
  dsimp only
  cases objection? options.strictNesting (scan text) with
  | some objection => cases objection <;> rfl
  | none =>
    cases toPostfix (scan text) with
    | error fault => rfl
    | ok ordered =>
      dsimp only
      cases reduce options.allowPartial ordered with
      | error fault => rfl
      | ok answer => cases answer <;> rfl

namespace Term

/-- A number written as its value is displayed; any other term, and a number without a value, as it
stands. -/
def reprinted (t : Term) : Term :=
  match t.operand? with
  | some x => ⟨.number, x.text, some x⟩
  | none => t

variable {t : Term}

theorem reprinted_of_operand? {x : Binary64} (h : t.operand? = some x) :
    t.reprinted = ⟨.number, x.text, some x⟩ := by
  rw [reprinted, h]

theorem reprinted_of_operand?_eq_none (h : t.operand? = none) : t.reprinted = t := by
  rw [reprinted, h]

@[simp] theorem kind_reprinted (t : Term) : t.reprinted.kind = t.kind := by
  cases h : t.operand? with
  | some x => rw [reprinted_of_operand? h, (operand?_eq_some_iff.mp h).1]
  | none => rw [reprinted_of_operand?_eq_none h]

@[simp] theorem value_reprinted (t : Term) : t.reprinted.value = t.value := by
  cases h : t.operand? with
  | some x => rw [reprinted_of_operand? h, (operand?_eq_some_iff.mp h).2]
  | none => rw [reprinted_of_operand?_eq_none h]

@[simp] theorem operand?_reprinted (t : Term) : t.reprinted.operand? = t.operand? := by
  rw [operand?, kind_reprinted, value_reprinted, operand?]

/-- Only numbers are written anew. -/
theorem text_reprinted (h : t.kind ≠ .number) : t.reprinted.text = t.text := by
  rw [reprinted_of_operand?_eq_none (if_neg h)]

@[simp] theorem operator?_reprinted (t : Term) : t.reprinted.operator? = t.operator? := by
  unfold operator?
  rw [kind_reprinted]
  split
  · next hkind => rw [text_reprinted (by simp [hkind])]
  · rfl

@[simp] theorem display_reprinted (t : Term) : t.reprinted.display = t.display := by
  cases h : t.operand? with
  | some x => rw [display, operand?_reprinted, display, h]
  | none => rw [reprinted_of_operand?_eq_none h]

end Term

/-- Writing numbers as they are displayed changes no objection. -/
theorem objectionFrom_map_reprinted (strict : Bool) (depth : Int) (terms : List Term) :
    objectionFrom strict depth (terms.map Term.reprinted) = objectionFrom strict depth terms := by
  induction terms generalizing depth with
  | nil => rfl
  | cons t rest ih =>
    cases h : t.operand? with
    | none =>
      rw [List.map_cons, Term.reprinted_of_operand?_eq_none h]
      simp only [objectionFrom, ih]
    | some x =>
      let before : Operand := ⟨t, x, h⟩
      let after : Operand := ⟨t.reprinted, x, (Term.operand?_reprinted t).trans h⟩
      exact (objectionFrom_operand strict depth _ after).trans
        ((ih depth).trans (objectionFrom_operand strict depth rest before).symm)

namespace Yard

/-- A yard with its numbers written as they are displayed. -/
def reprinted (yard : Yard) : Yard :=
  ⟨yard.held.map Term.reprinted, yard.gone.map Term.reprinted⟩

/-- A test that does not look at how numbers are written lets go the same terms. -/
theorem release_reprinted {test : Term → Bool} (htest : ∀ t, test t.reprinted = test t)
    (yard : Yard) : yard.reprinted.release test = (yard.release test).reprinted := by
  have hcomp : test ∘ Term.reprinted = test := funext htest
  simp only [release, reprinted, List.dropWhile_map, List.takeWhile_map, hcomp, List.map_append,
    List.map_reverse]

/-- What a yard does with a term does not depend on how numbers are written. -/
theorem step_reprinted (yard : Yard) (t : Term) :
    yard.reprinted.step t.reprinted = (yard.step t).map reprinted := by
  have hyields (op : Operator) : ∀ t : Term, yields op t.reprinted = yields op t := by
    intro t
    rw [yields, Term.operator?_reprinted, yields]
  have hopening : ∀ t : Term, decide (t.reprinted.kind ≠ .opening) = decide (t.kind ≠ .opening) := by
    intro t
    rw [Term.kind_reprinted]
  unfold step
  rw [Term.kind_reprinted, Term.operator?_reprinted]
  cases hkind : t.kind with
  | number => rfl
  | operator =>
    cases t.operator? with
    | none =>
      rw [Term.text_reprinted (by simp [hkind])]
      rfl
    | some op =>
      dsimp only
      rw [release_reprinted (hyields op)]
      rfl
  | opening => rfl
  | closing =>
    dsimp only
    rw [release_reprinted hopening]
    generalize yard.release _ = released
    obtain ⟨held, gone⟩ := released
    cases held <;> rfl
  | unknown =>
    rw [Term.text_reprinted (by simp [hkind])]
    rfl

/-- Whether a group is open at the end does not depend on how numbers are written. -/
theorem finish_reprinted (yard : Yard) :
    yard.reprinted.finish = yard.finish.map (List.map Term.reprinted) := by
  unfold finish
  have hany : (yard.reprinted.held.any fun t => t.kind = .opening) =
      yard.held.any fun t => t.kind = .opening := by
    simp [reprinted, List.any_map, Function.comp_def]
  rw [hany]
  split
  · rfl
  · simp [Except.map, reprinted]

end Yard

/-- A run whose steps commute with a map commutes with it. -/
theorem foldlM_map_of_step {α σ : Type} {step : σ → α → Except Fault σ} {onState : σ → σ}
    {onItem : α → α} (h : ∀ s a, step (onState s) (onItem a) = (step s a).map onState)
    (items : List α) (s : σ) :
    (items.map onItem).foldlM step (onState s) = (items.foldlM step s).map onState := by
  induction items generalizing s with
  | nil => rfl
  | cons a rest ih =>
    rw [List.map_cons, List.foldlM_cons, List.foldlM_cons, h]
    cases step s a with
    | error fault => rfl
    | ok next => exact ih next

/-- Putting terms into postfix order commutes with writing numbers as they are displayed. -/
theorem arrange_map_reprinted (strict : Bool) (terms : List Term) :
    arrange strict (terms.map Term.reprinted) =
      (arrange strict terms).map (List.map Term.reprinted) := by
  unfold arrange objection?
  rw [objectionFrom_map_reprinted]
  cases objectionFrom strict 0 terms with
  | some objection => rfl
  | none =>
    have hrun : (terms.map Term.reprinted).foldlM Yard.step .empty =
        (terms.foldlM Yard.step .empty).map Yard.reprinted :=
      foldlM_map_of_step Yard.step_reprinted terms .empty
    dsimp only
    unfold toPostfix
    rw [hrun]
    cases terms.foldlM Yard.step .empty with
    | error fault => rfl
    | ok yard => exact yard.finish_reprinted

/-- Working off a term does not depend on how numbers are written. -/
theorem reduceStep_reprinted (stack : List Binary64) (t : Term) :
    reduceStep stack t.reprinted = reduceStep stack t := by
  cases h : t.operand? with
  | none => rw [Term.reprinted_of_operand?_eq_none h]
  | some x =>
    let before : Operand := ⟨t, x, h⟩
    let after : Operand := ⟨t.reprinted, x, (Term.operand?_reprinted t).trans h⟩
    exact (reduceStep_operand after stack).trans (reduceStep_operand before stack).symm

/-- The answer of a sequence does not depend on how numbers are written. -/
theorem reduce_map_reprinted (allowPartial : Bool) (terms : List Term) :
    reduce allowPartial (terms.map Term.reprinted) = reduce allowPartial terms := by
  unfold reduce leftovers
  rw [List.foldlM_map]
  simp only [reduceStep_reprinted]

/-- The verdict on a sequence does not depend on how numbers are written. -/
theorem verdict_map_reprinted (options : Options) (terms : List Term) :
    verdict options (terms.map Term.reprinted) = verdict options terms := by
  unfold verdict
  rw [arrange_map_reprinted]
  cases arrange options.strictNesting terms with
  | error fault => rfl
  | ok ordered => exact congrArg (Except.map Answer.value) (reduce_map_reprinted _ ordered)

/-- Terms that are displayed alike are logged alike. -/
theorem displayAll_map_reprinted (terms : List Term) :
    Term.displayAll (terms.map Term.reprinted) = Term.displayAll terms := by
  simp [Term.displayAll, Function.comp_def]

/-- The postfix order that is logged does not depend on how numbers are written. -/
theorem postfixLines_evaluate_reprinted (options : Options) (text : String) :
    (evaluate options text).postfixLines =
      match arrange options.strictNesting ((scan text).map Term.reprinted) with
      | .error _ => []
      | .ok ordered => [(Event.postfixOrder ordered).message] := by
  rw [postfixLines_evaluate, arrange_map_reprinted]
  cases arrange options.strictNesting (scan text) with
  | error fault => rfl
  | ok ordered =>
    exact congrArg (fun line => ["Postfix: " ++ line]) (displayAll_map_reprinted ordered).symm

end Reckoner
