import Reckoner.Proofs.Tree
import Reckoner.Validity

/-!
# Nesting

The judgement on a sequence of terms is told term by term: what the first term does to the depth,
and which first terms it admits. Under strict nesting a sequence without objection is built from
numbers, operators and parenthesised groups that are nested sequences themselves; whether operands
and operators alternate plays no part in it.
-/

namespace Reckoner

/-- A term that may stand in an expression: a parenthesis, a number with a value or an operator
with a known symbol. -/
def Term.Admissible (t : Term) : Prop :=
  t.kind = .opening ∨ t.kind = .closing ∨ (∃ x : Operand, x.term = t) ∨
    ∃ c : Connective, c.term = t

/-- An admissible operator has a known symbol. -/
theorem operator?_ne_none_of_admissible {t : Term} (h : t.Admissible)
    (hkind : t.kind = .operator) : t.operator? ≠ none := by
  rcases h with hopening | hclosing | ⟨x, rfl⟩ | ⟨c, rfl⟩
  · rw [hkind] at hopening
    cases hopening
  · rw [hkind] at hclosing
    cases hclosing
  · rw [x.kind_term] at hkind
    cases hkind
  · rw [c.writes]
    exact Option.some_ne_none c.op

/-- An admissible term is of a known kind. -/
theorem kind_ne_unknown_of_admissible {t : Term} (h : t.Admissible) : t.kind ≠ .unknown := by
  rcases h with hopening | hclosing | ⟨x, rfl⟩ | ⟨c, rfl⟩
  · simp [hopening]
  · simp [hclosing]
  · simp
  · simp

/-- An admissible number has a value. -/
theorem exists_operand?_of_admissible {t : Term} (h : t.Admissible) (hkind : t.kind = .number) :
    ∃ x, t.operand? = some x := by
  rcases h with hopening | hclosing | ⟨x, rfl⟩ | ⟨c, rfl⟩
  · rw [hkind] at hopening
    cases hopening
  · rw [hkind] at hclosing
    cases hclosing
  · exact ⟨x.value, x.reads⟩
  · rw [c.kind_term] at hkind
    cases hkind

section Judgement

variable (strict : Bool) (depth : Int) (rest : List Term)

/-- A number with a value is passed over. -/
theorem objectionFrom_operand (x : Operand) :
    objectionFrom strict depth (x.term :: rest) = objectionFrom strict depth rest := by
  simp [objectionFrom, x.reads]

/-- An operator with a known symbol is passed over. -/
theorem objectionFrom_connective (c : Connective) :
    objectionFrom strict depth (c.term :: rest) = objectionFrom strict depth rest := by
  simp [objectionFrom, c.writes]

/-- An opening parenthesis leads one level down. -/
theorem objectionFrom_opening {t : Term} (hkind : t.kind = .opening) :
    objectionFrom strict depth (t :: rest) = objectionFrom strict (depth + 1) rest := by
  simp [objectionFrom, hkind]

/-- A closing parenthesis leads one level up, under strict nesting if its group is open. -/
theorem objectionFrom_closing {t : Term} (hkind : t.kind = .closing)
    (hdepth : strict = true → 0 < depth) :
    objectionFrom strict depth (t :: rest) = objectionFrom strict (depth - 1) rest := by
  have hopen : ¬ (strict = true ∧ depth ≤ 0) := by
    rintro ⟨hstrict, hle⟩
    have := hdepth hstrict
    omega
  simp only [objectionFrom, hkind, if_neg hopen]

end Judgement

/-- A judgement that reports nothing has passed over the first term, which is admissible, and comes
from the others. -/
theorem objectionFrom_cons_eq {strict : Bool} {depth : Int} {t : Term} {rest : List Term}
    {judgement : Option Objection} (hsilent : judgement.elim [] Objection.events = [])
    (h : objectionFrom strict depth (t :: rest) = judgement) :
    (t.kind = .opening ∧ objectionFrom strict (depth + 1) rest = judgement) ∨
      (t.kind = .closing ∧ (strict = true → 0 < depth) ∧
        objectionFrom strict (depth - 1) rest = judgement) ∨
      (((∃ x : Operand, x.term = t) ∨ ∃ c : Connective, c.term = t) ∧
        objectionFrom strict depth rest = judgement) := by
  unfold objectionFrom at h
  split at h
  · next hkind => exact .inl ⟨hkind, h⟩
  · next hkind =>
    split at h
    · rw [← h] at hsilent
      cases hsilent
    · next hopen =>
      refine .inr (.inl ⟨hkind, fun hstrict => ?_, h⟩)
      exact Int.not_le.mp fun hdepth => hopen ⟨hstrict, hdepth⟩
  · split at h
    · next hterm =>
      refine .inr (.inr ⟨?_, h⟩)
      rcases hterm with hoperator | hoperand
      · obtain ⟨op, hop⟩ := Option.isSome_iff_exists.mp hoperator
        exact .inr ⟨⟨t, op, hop⟩, rfl⟩
      · obtain ⟨value, hvalue⟩ := Option.isSome_iff_exists.mp hoperand
        exact .inl ⟨⟨t, value, hvalue⟩, rfl⟩
    · rw [← h] at hsilent
      cases hsilent

/-- Sequences of numbers, operators and parenthesised groups, in any arrangement. -/
inductive Nested : List Term → Prop
  | nil : Nested []
  | operand (x : Operand) {rest : List Term} : Nested rest → Nested (x.term :: rest)
  | connective (c : Connective) {rest : List Term} : Nested rest → Nested (c.term :: rest)
  | group {opening closing : Term} {inner rest : List Term} (hopening : opening.kind = .opening)
      (hclosing : closing.kind = .closing) :
      Nested inner → Nested rest → Nested (opening :: (inner ++ closing :: rest))

/-- What is left of a strictly judged sequence at some depth after its longest nested initial
part: nothing at depth zero, else the closing parenthesis of the group and what follows it. -/
def ClosesAt (depth : Nat) (terms : List Term) : Prop :=
  match depth with
  | 0 => terms = []
  | depth + 1 => ∃ closing rest, terms = closing :: rest ∧ closing.kind = .closing ∧
      objectionFrom true depth rest = none

/-- A strictly judged sequence without objection starts with a nested sequence that reaches up to
the end of the innermost open group. -/
theorem exists_nested_of_objectionFrom (terms : List Term) (depth : Nat)
    (h : objectionFrom true depth terms = none) :
    ∃ inner outer, terms = inner ++ outer ∧ Nested inner ∧ ClosesAt depth outer := by
  match terms with
  | [] =>
    refine ⟨[], [], rfl, .nil, ?_⟩
    cases depth with
    | zero => rfl
    | succ depth =>
      rw [objectionFrom, if_neg (by omega)] at h
      cases h
  | t :: rest =>
    rcases objectionFrom_cons_eq rfl h with
      ⟨hkind, hrest⟩ | ⟨hkind, hdepth, hrest⟩ | ⟨hterm, hrest⟩
    · -- the group that `t` opens is nested, and so is what follows its closing parenthesis
      obtain ⟨inner, after, rfl, hinner, closing, outer, rfl, hclosing, houter⟩ :=
        exists_nested_of_objectionFrom rest (depth + 1) hrest
      obtain ⟨inner', outer', rfl, hinner', houter'⟩ :=
        exists_nested_of_objectionFrom outer depth houter
      exact ⟨t :: (inner ++ closing :: inner'), outer', by simp,
        .group hkind hclosing hinner hinner', houter'⟩
    · have hpos := hdepth rfl
      obtain ⟨outer, rfl⟩ : ∃ outer, depth = outer + 1 := ⟨depth - 1, by omega⟩
      refine ⟨[], t :: rest, rfl, .nil, t, rest, rfl, hkind, ?_⟩
      rw [← hrest]
      congr 1
      omega
    · obtain ⟨inner, outer, rfl, hinner, houter⟩ :=
        exists_nested_of_objectionFrom rest depth hrest
      rcases hterm with ⟨x, rfl⟩ | ⟨c, rfl⟩
      · exact ⟨x.term :: inner, outer, rfl, .operand x hinner, houter⟩
      · exact ⟨c.term :: inner, outer, rfl, .connective c hinner, houter⟩
termination_by terms.length
decreasing_by all_goals simp_all <;> omega

/-- A sequence that strict judgement does not object to is nested. -/
theorem nested_of_objection?_eq_none {terms : List Term} (h : objection? true terms = none) :
    Nested terms := by
  obtain ⟨inner, outer, rfl, hinner, houter⟩ := exists_nested_of_objectionFrom terms 0 h
  rw [show outer = [] from houter, List.append_nil]
  exact hinner

end Reckoner
