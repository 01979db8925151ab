import Mathlib.Data.List.Chain
import Reckoner.Proofs.Grammar
import Reckoner.Proofs.Literal

/-!
# Spelled expressions

The infix grammar over characters: the operands are literals with or without a sign and
parenthesised expressions, and nothing else, no blanks in particular, comes between them. A
spelled text carries its syntax tree.

Whether a sign stands right after a closing parenthesis is followed through the grammar, because
this is the one point where scanning departs from it.
-/

namespace Reckoner

/-- The character of the symbol of an operator. -/
def Operator.char : Operator → Char
  | .sub => '-'
  | .add => '+'
  | .mod => '%'
  | .div => '/'
  | .mul => '*'
  | .pow => '^'

/-- Texts spelled at a level of the grammar, with their syntax trees. Level four holds the operands
of all operators. -/
inductive Spelled : Nat → List Char → Tree → Prop
  | literal (l : Literal) (sign : Sign) : Spelled 4 (sign.chars ++ l.chars) (.leaf (l.operand sign))
  | group {text : List Char} {e : Tree} : Spelled 0 text e → Spelled 4 ('(' :: (text ++ [')'])) e
  | tighter {level : Nat} {text : List Char} {e : Tree} :
      Spelled (level + 1) text e → Spelled level text e
  | binary {level : Nat} {first second : List Char} {left right : Tree} (op : Operator)
      (hop : op ∈ operatorsAt level) :
      Spelled level first left → Spelled (level + 1) second right →
      Spelled level (first ++ op.char :: second) (.node (.of op) left right)

/-- What is spelled at a level is spelled at every looser one. -/
theorem Spelled.loosen {level : Nat} {text : List Char} {e : Tree} (steps : Nat)
    (h : Spelled (level + steps) text e) : Spelled level text e := by
  induction steps with
  | zero => exact h
  | succ steps ih => exact ih (.tighter h)

/-- No sign stands right after a closing parenthesis. A sign there is always an operator of the
grammar, since no operand starts right after a closing parenthesis. -/
def NoSignAfterGroup (text : List Char) : Prop :=
  text.IsChain fun c d => ¬ (c = ')' ∧ isSign d = true)

instance (text : List Char) : Decidable (NoSignAfterGroup text) :=
  inferInstanceAs (Decidable (text.IsChain fun c d => ¬ (c = ')' ∧ isSign d = true)))

/-- Whether a text ends with a digit or point. -/
def endsNumeric (text : List Char) : Bool :=
  text.getLast?.any isNumeric

namespace Operator

/-- An operator is no part of a number. -/
theorem isNumeric_char (op : Operator) : isNumeric op.char = false := by
  cases op <;> decide

/-- An operator is no parenthesis. -/
theorem char_ne_closing (op : Operator) : op.char ≠ ')' := by
  cases op <;> decide

/-- The term of an operator's character is the operator. -/
theorem ofChar_char (op : Operator) : Term.ofChar op.char = (Connective.of op).term := by
  cases op <;> decide +kernel

end Operator

/-- An opening parenthesis is a term of its own. -/
theorem ofChar_opening : Term.ofChar '(' = .paren "(" := by
  decide +kernel

/-- A closing parenthesis is a term of its own. -/
theorem ofChar_closing : Term.ofChar ')' = .paren ")" := by
  decide +kernel

/-- A literal ends with a digit or point. -/
theorem exists_getLast?_literal (l : Literal) (sign : Sign) :
    ∃ c, (sign.chars ++ l.chars).getLast? = some c ∧ isNumeric c = true := by
  obtain ⟨c, hc⟩ := Option.isSome_iff_exists.mp (List.getLast?_isSome.mpr l.chars_ne_nil)
  refine ⟨c, ?_, l.isNumeric_of_mem c (List.mem_of_getLast? hc)⟩
  rw [List.getLast?_append_of_ne_nil _ l.chars_ne_nil, hc]

/-- A group ends with its closing parenthesis. -/
theorem getLast?_group (text : List Char) : ('(' :: (text ++ [')'])).getLast? = some ')' := by
  rw [← List.cons_append, List.getLast?_concat]

/-- What ends the right operand of an operator ends the whole text. -/
theorem getLast?_append_operator (op : Operator) (first : List Char) {second : List Char} {c : Char}
    (h : second.getLast? = some c) : (first ++ op.char :: second).getLast? = some c := by
  rw [List.getLast?_append_cons, List.getLast?_cons, h]
  rfl

/-- A spelled text ends with a digit or point or with a closing parenthesis. -/
theorem exists_getLast?_of_spelled {level : Nat} {text : List Char} {e : Tree}
    (h : Spelled level text e) :
    ∃ c, text.getLast? = some c ∧ (isNumeric c = true ∨ c = ')') := by
  induction h with
  | literal l sign =>
    obtain ⟨c, hc, hnumeric⟩ := exists_getLast?_literal l sign
    exact ⟨c, hc, .inl hnumeric⟩
  | group _ _ => exact ⟨')', getLast?_group _, .inr rfl⟩
  | tighter _ ih => exact ih
  | binary op _ _ _ _ ih =>
    obtain ⟨c, hc, hlast⟩ := ih
    exact ⟨c, getLast?_append_operator op _ hc, hlast⟩

/-- Whether two texts joined by an operator end with a number is told by the second one. -/
theorem endsNumeric_append_operator {level : Nat} {second : List Char} {right : Tree}
    (first : List Char) (op : Operator) (hsecond : Spelled level second right) :
    endsNumeric (first ++ op.char :: second) = endsNumeric second := by
  obtain ⟨c, hc, _⟩ := exists_getLast?_of_spelled hsecond
  rw [endsNumeric, endsNumeric, getLast?_append_operator op first hc, hc]

/-- Whether two texts joined by an operator have a sign after a group is told by the two texts and
by the end of the first one. -/
theorem noSignAfterGroup_append_operator {level : Nat} {first : List Char} {left : Tree}
    (hfirst : Spelled level first left) (op : Operator) (second : List Char) :
    NoSignAfterGroup (first ++ op.char :: second) ↔
      NoSignAfterGroup first ∧ (isSign op.char = true → endsNumeric first = true) ∧
        NoSignAfterGroup second := by
  obtain ⟨c, hc, hlast⟩ := exists_getLast?_of_spelled hfirst
  have hends : endsNumeric first = isNumeric c := by rw [endsNumeric, hc, Option.any_some]
  have hjoin : (isSign op.char = true → isNumeric c = true) ↔
      ¬ (c = ')' ∧ isSign op.char = true) := by
    refine ⟨fun h ⟨hclosing, hsign⟩ => ?_, fun h hsign => ?_⟩
    · have hnumeric := h hsign
      rw [hclosing] at hnumeric
      exact absurd hnumeric (by decide)
    · exact hlast.resolve_right fun hclosing => h ⟨hclosing, hsign⟩
  unfold NoSignAfterGroup
  rw [List.isChain_append, List.isChain_cons, hends, hjoin, hc]
  simp [op.char_ne_closing, and_comm]

/-- A group has a sign after a group inside exactly if its content does. -/
theorem noSignAfterGroup_group {text : List Char} :
    NoSignAfterGroup ('(' :: (text ++ [')'])) ↔ NoSignAfterGroup text := by
  unfold NoSignAfterGroup
  rw [List.isChain_cons, List.isChain_append]
  simp [isSign]

/-- A literal has no sign after a group. -/
theorem noSignAfterGroup_literal (l : Literal) (sign : Sign) :
    NoSignAfterGroup (sign.chars ++ l.chars) := by
  refine List.isChain_iff_forall_rel_of_append_cons_cons.mpr fun c d before after heq hpair => ?_
  have hmem : ')' ∈ sign.chars ++ l.chars := by
    rw [heq, hpair.1]
    simp
  rcases List.mem_append.mp hmem with hsign | hliteral
  · revert hsign
    cases sign <;> decide
  · exact absurd (l.isNumeric_of_mem ')' hliteral) (by decide)

end Reckoner
