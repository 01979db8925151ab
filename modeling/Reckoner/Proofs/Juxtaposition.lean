import Mathlib.Data.List.Chain
import Reckoner.Proofs.Faults
import Reckoner.Proofs.Grammar
import Reckoner.Proofs.Outcome

/-!
# Juxtaposed operands

A sequence of terms is a well-formed expression if it is a number, a parenthesised well-formed
expression, or two well-formed expressions with an operator between them. An evaluation does not
look at the places of the operands: it only finds out whether the operators, in postfix order,
have enough of them. An operand that is missing in one place can therefore be made up for by one
too many in another, and then two operands stand next to each other.

That is the only way: a text in which no two operands are juxtaposed has a value, leftovers not
allowed, exactly if its terms are a well-formed expression. The proof counts. Within each group
the numbers and groups, if no two of them are juxtaposed, exceed the operators by one at most.
-/

namespace Reckoner

/-- Well-formed expressions: numbers, parenthesised expressions, and operators between two
expressions. How tightly an operator binds plays no part. -/
inductive WellFormed : List Term → Prop
  | number (x : Operand) : WellFormed [x.term]
  | group {opening closing : Term} {terms : List Term} (hopening : opening.kind = .opening)
      (hclosing : closing.kind = .closing) :
      WellFormed terms → WellFormed (opening :: (terms ++ [closing]))
  | binary (c : Connective) {first second : List Term} :
      WellFormed first → WellFormed second → WellFormed (first ++ c.term :: second)

/-- Whether an operand starts with the term. -/
def Term.StartsOperand (t : Term) : Prop :=
  t.kind = .number ∨ t.kind = .opening

/-- Whether an operand ends with the term. -/
def Term.EndsOperand (t : Term) : Prop :=
  t.kind = .number ∨ t.kind = .closing

/-- No operand ends right before another one starts. -/
def OperandsApart (terms : List Term) : Prop :=
  terms.IsChain fun t u => ¬ (t.EndsOperand ∧ u.StartsOperand)

instance (t : Term) : Decidable t.StartsOperand :=
  inferInstanceAs (Decidable (t.kind = .number ∨ t.kind = .opening))

instance (t : Term) : Decidable t.EndsOperand :=
  inferInstanceAs (Decidable (t.kind = .number ∨ t.kind = .closing))

instance (terms : List Term) : Decidable (OperandsApart terms) :=
  inferInstanceAs (Decidable (terms.IsChain fun t u => ¬ (t.EndsOperand ∧ u.StartsOperand)))

/-- In a well-formed expression no two operands are juxtaposed. -/
theorem operandsApart_of_wellFormed {terms : List Term} (h : WellFormed terms) :
    OperandsApart terms := by
  induction h with
  | number x => exact .singleton _
  | @group opening closing terms hopening hclosing _ ih =>
    refine List.isChain_cons.mpr ⟨?_, List.isChain_append.mpr ⟨ih, .singleton _, ?_⟩⟩
    · intro t _
      simp [Term.EndsOperand, hopening]
    · intro t _ u hu
      cases hu
      simp [Term.StartsOperand, hclosing]
  | binary c _ _ ihl ihr =>
    refine List.isChain_append.mpr ⟨ihl, List.isChain_cons.mpr ⟨?_, ihr⟩, ?_⟩
    · intro t _
      simp [Term.EndsOperand]
    · intro t _ u hu
      cases hu
      simp [Term.StartsOperand]

/-- What can follow where an operand is due: at most one number more than operators, and if there
is one more, a well-formed expression. -/
structure FollowsOperator (terms : List Term) : Prop where
  count_le : numberCount terms ≤ operatorCount terms + 1
  wellFormed : numberCount terms = operatorCount terms + 1 → WellFormed terms

/-- What can follow where an operand has just ended: at most as many numbers as operators, and if
there are as many, an extension of any well-formed expression to another one. -/
structure FollowsOperand (terms : List Term) : Prop where
  count_le : numberCount terms ≤ operatorCount terms
  wellFormed : numberCount terms = operatorCount terms →
    ∀ first, WellFormed first → WellFormed (first ++ terms)

/-- The end of the sequence can follow an operand. -/
theorem followsOperand_nil : FollowsOperand [] where
  count_le := Nat.le_refl 0
  wellFormed _ first hfirst := by rwa [List.append_nil]

section Follows

variable {rest : List Term}

/-- A number takes the place of an operand. -/
theorem FollowsOperand.number (x : Operand) (h : FollowsOperand rest) :
    FollowsOperator (x.term :: rest) := by
  have hnumber : numberCount (x.term :: rest) = numberCount rest + 1 := by simp
  have hoperator : operatorCount (x.term :: rest) = operatorCount rest := by simp
  have hle := h.count_le
  refine ⟨by omega, fun hcount => ?_⟩
  exact h.wellFormed (by omega) [x.term] (.number x)

/-- A group takes the place of an operand. -/
theorem FollowsOperand.group {opening closing : Term} {inner : List Term}
    (hopening : opening.kind = .opening) (hclosing : closing.kind = .closing)
    (hinner : FollowsOperator inner) (h : FollowsOperand rest) :
    FollowsOperator (opening :: (inner ++ closing :: rest)) := by
  have hnumber : numberCount (opening :: (inner ++ closing :: rest)) =
      numberCount inner + numberCount rest := by
    simp [hopening, hclosing]
  have hoperator : operatorCount (opening :: (inner ++ closing :: rest)) =
      operatorCount inner + operatorCount rest := by
    simp [hopening, hclosing]
  have hle := h.count_le
  have hle' := hinner.count_le
  refine ⟨by omega, fun hcount => ?_⟩
  have hgroup := WellFormed.group hopening hclosing (hinner.wellFormed (by omega))
  have hwhole := h.wellFormed (by omega) _ hgroup
  simpa using hwhole

/-- An operator takes the place of an operator. -/
theorem FollowsOperator.connective (c : Connective) (h : FollowsOperator rest) :
    FollowsOperand (c.term :: rest) := by
  have hnumber : numberCount (c.term :: rest) = numberCount rest := by simp
  have hoperator : operatorCount (c.term :: rest) = operatorCount rest + 1 := by simp
  have hle := h.count_le
  refine ⟨by omega, fun hcount first hfirst => ?_⟩
  exact .binary c hfirst (h.wellFormed (by omega))

/-- What can follow an operand can follow an operator too, if only by lacking an operand. -/
theorem FollowsOperand.lacking (h : FollowsOperand rest) : FollowsOperator rest := by
  have hle := h.count_le
  exact ⟨by omega, fun hcount => absurd hcount (by omega)⟩

end Follows

/-- A nested sequence without juxtaposed operands can follow an operator, and it can follow an
operand if it does not start with another one. -/
theorem follows_of_nested {terms : List Term} (h : Nested terms) (hapart : OperandsApart terms) :
    FollowsOperator terms ∧
      ((∀ t ∈ terms.head?, ¬ t.StartsOperand) → FollowsOperand terms) := by
  induction h with
  | nil => exact ⟨followsOperand_nil.lacking, fun _ => followsOperand_nil⟩
  | operand x _ ih =>
    obtain ⟨hhead, hrest⟩ := List.isChain_cons.mp hapart
    have hnumber : x.term.EndsOperand := .inl x.kind_term
    have hfollows := (ih hrest).2 fun t ht hstarts => hhead t ht ⟨hnumber, hstarts⟩
    refine ⟨hfollows.number x, fun hstart => ?_⟩
    exact absurd (Or.inl x.kind_term) (hstart x.term rfl)
  | connective c _ ih =>
    obtain ⟨_, hrest⟩ := List.isChain_cons.mp hapart
    have hfollows := (ih hrest).1.connective c
    exact ⟨hfollows.lacking, fun _ => hfollows⟩
  | @group opening closing inner rest hopening hclosing _ _ ihinner ihrest =>
    obtain ⟨_, htail⟩ := List.isChain_cons.mp hapart
    obtain ⟨hinner, hclosed, _⟩ := List.isChain_append.mp htail
    obtain ⟨hhead, hrest⟩ := List.isChain_cons.mp hclosed
    have hfollows := (ihrest hrest).2 fun t ht hstarts => hhead t ht ⟨.inr hclosing, hstarts⟩
    refine ⟨hfollows.group hopening hclosing (ihinner hinner).1, fun hstart => ?_⟩
    exact absurd (Or.inr hopening) (hstart opening rfl)

/-- A valid sequence that is the infix order of a tree and has no juxtaposed operands is a
well-formed expression. -/
theorem wellFormed_of_toPostfix {terms : List Term} {e : Tree}
    (hvalid : objection? true terms = none) (horder : toPostfix terms = .ok e.postorder)
    (hapart : OperandsApart terms) : WellFormed terms := by
  have hnumber := numberCount_of_toPostfix horder
  have hoperator := operatorCount_of_toPostfix horder
  have htree := e.numberCount_postorder
  exact (follows_of_nested (nested_of_objection?_eq_none hvalid) hapart).1.wellFormed (by omega)

/-- An operator and one more operand extend a derivation at the level of the operator or a looser
one. -/
theorem exists_derives_append_operand {level : Nat} {first operand : List Term} {left x : Tree}
    (hfirst : Derives level first left) (c : Connective) (hlevel : level ≤ c.op.precedence)
    (hoperand : Derives 4 operand x) :
    ∃ e, Derives level (first ++ c.term :: operand) e := by
  have hbound : c.op.precedence ≤ 3 := by cases c.op <;> decide
  -- at its own level the operator joins the whole derivation and the operand
  have hjoin {level : Nat} {terms : List Term} {e : Tree} (h : Derives level terms e)
      (heq : c.op.precedence = level) : ∃ e, Derives level (terms ++ c.term :: operand) e := by
    have hright : Derives (level + 1) operand x := by
      refine .loosen (3 - level) ?_
      rwa [show level + 1 + (3 - level) = 4 by omega]
    exact ⟨_, .binary c (mem_operatorsAt_iff.mpr heq) h hright⟩
  induction hfirst with
  | number x => omega
  | group hopening hclosing _ _ => omega
  | @tighter level terms e h ih =>
    rcases Nat.eq_or_lt_of_le hlevel with heq | hlt
    · exact hjoin (.tighter h) heq.symm
    · obtain ⟨e, he⟩ := ih hlt
      exact ⟨e, .tighter he⟩
  | @binary level first second left right d hop hl hr _ ihr =>
    rcases Nat.eq_or_lt_of_le hlevel with heq | hlt
    · exact hjoin (.binary d hop hl hr) heq.symm
    · obtain ⟨e, he⟩ := ihr hlt
      refine ⟨.node d left e, ?_⟩
      rw [List.append_assoc]
      exact .binary d hop hl he

/-- Two derived sequences with an operator between them are derived, the operators grouped anew. -/
theorem exists_derives_append {level : Nat} {second : List Term} {right : Tree}
    (hsecond : Derives level second right) (c : Connective) {first : List Term} {left : Tree}
    (hfirst : Derives 0 first left) : ∃ e, Derives 0 (first ++ c.term :: second) e := by
  induction hsecond generalizing c first left with
  | number x => exact exists_derives_append_operand hfirst c (Nat.zero_le _) (.number x)
  | group hopening hclosing h _ =>
    exact exists_derives_append_operand hfirst c (Nat.zero_le _) (.group hopening hclosing h)
  | tighter _ ih => exact ih c hfirst
  | binary d _ _ _ ihl ihr =>
    obtain ⟨e, he⟩ := ihl c hfirst
    obtain ⟨e', he'⟩ := ihr d he
    refine ⟨e', ?_⟩
    rwa [List.append_assoc] at he'

/-- A well-formed expression is derived by the grammar with levels. -/
theorem exists_derives_of_wellFormed {terms : List Term} (h : WellFormed terms) :
    ∃ e, Derives 0 terms e := by
  induction h with
  | number x => exact ⟨_, .loosen 4 (.number x)⟩
  | group hopening hclosing _ ih =>
    obtain ⟨e, he⟩ := ih
    exact ⟨e, .loosen 4 (.group hopening hclosing he)⟩
  | binary c _ _ ihl ihr =>
    obtain ⟨left, hleft⟩ := ihl
    obtain ⟨right, hright⟩ := ihr
    exact exists_derives_append hright c hleft

/-- Leftovers not allowed and under strict nesting, a text with a value has numbers and operators in
nested groups, and their postfix order is that of a single tree with this value; they are a
well-formed expression exactly if no two operands are juxtaposed. Every well-formed expression has
a value, and without juxtaposed operands every other text is rejected as invalid or malformed. -/
theorem evaluate_strictly_wellFormed (text : String) :
    (∀ value, (evaluate ⟨false, true⟩ text).result = .ok value →
      Nested (scan text) ∧
        (∃ e : Tree, toPostfix (scan text) = .ok e.postorder ∧ e.value = value) ∧
        (WellFormed (scan text) ↔ OperandsApart (scan text))) ∧
      (WellFormed (scan text) → ∃ value, (evaluate ⟨false, true⟩ text).result = .ok value) ∧
      (OperandsApart (scan text) → ¬ WellFormed (scan text) →
        ∃ r, (evaluate ⟨false, true⟩ text).result = .error r ∧
          (r.kind = .invalid ∨ r.kind = .malformed)) := by
  have hvalue : ∀ value, (evaluate ⟨false, true⟩ text).result = .ok value →
      Nested (scan text) ∧
        (∃ e : Tree, toPostfix (scan text) = .ok e.postorder ∧ e.value = value) ∧
        (WellFormed (scan text) ↔ OperandsApart (scan text)) := by
    intro value h
    obtain ⟨hvalid, e, horder, he⟩ := evaluate_strictly_eq_ok_iff.mp h
    exact ⟨nested_of_objection?_eq_none hvalid, ⟨e, horder, he⟩, operandsApart_of_wellFormed,
      wellFormed_of_toPostfix hvalid horder⟩
  refine ⟨hvalue, fun hwellFormed => ?_, fun hapart hwellFormed => ?_⟩
  · obtain ⟨e, he⟩ := exists_derives_of_wellFormed hwellFormed
    exact ⟨e.value, evaluate_of_derives he ⟨false, true⟩⟩
  · rcases evaluate_ok_or_rejected ⟨false, true⟩ text with ⟨value, h⟩ | hrejected
    · exact absurd ((hvalue value h).2.2.mpr hapart) hwellFormed
    · exact hrejected

/-- Both groups of `(1)(2)*` are juxtaposed and it has a value, so it is not well formed; `1*()`
has no juxtaposed operands and no value, so it is not well formed either and rejected. -/
theorem evaluate_strictly_wellFormed_groups :
    (evaluate ⟨false, true⟩ "(1)(2)*").result = .ok (.ofDecimal false 2 0) ∧
      (WellFormed (scan "(1)(2)*") ↔ OperandsApart (scan "(1)(2)*")) ∧
      ¬ WellFormed (scan "1*()") ∧ OperandsApart (scan "1*()") ∧
      ∃ r, (evaluate ⟨false, true⟩ "1*()").result = .error r ∧
        (r.kind = .invalid ∨ r.kind = .malformed) := by
  have hvalue : (evaluate ⟨false, true⟩ "(1)(2)*").result = .ok (.ofDecimal false 2 0) :=
    eq_ok_of_toOption (by decide +kernel)
  have hnone : (evaluate ⟨false, true⟩ "1*()").result.toOption = none := by decide +kernel
  have hapart : OperandsApart (scan "1*()") := by decide +kernel
  have hmalformed : ¬ WellFormed (scan "1*()") := by
    intro h
    obtain ⟨value, hok⟩ := (evaluate_strictly_wellFormed "1*()").2.1 h
    rw [hok] at hnone
    cases hnone
  exact ⟨hvalue, ((evaluate_strictly_wellFormed "(1)(2)*").1 _ hvalue).2.2, hmalformed, hapart,
    (evaluate_strictly_wellFormed "1*()").2.2 hapart hmalformed⟩

/-- Not every text with a value is well formed: in `1(2*)` the operator lacks its right operand,
and the juxtaposed number makes up for it. -/
theorem evaluate_strictly_not_wellFormed :
    (evaluate ⟨false, true⟩ "1(2*)").result = .ok (.ofDecimal false 2 0) ∧
      ¬ WellFormed (scan "1(2*)") := by
  refine ⟨eq_ok_of_toOption (by decide +kernel), fun h => ?_⟩
  exact absurd (operandsApart_of_wellFormed h) (by decide +kernel)

end Reckoner
