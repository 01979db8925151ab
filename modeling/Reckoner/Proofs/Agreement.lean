import Reckoner.Proofs.Balance
import Reckoner.Scan

/-!
# Judgement and yard agree

The judgement counts parentheses and the yard holds them back, and neither looks at the other. They
accept the same sequences of terms all the same, if numbers without a value are left aside, which the
yard does not look into. What the yard refuses it refuses for the first term that offends: an operator
that is not listed, a term that belongs to no expression, or a closing parenthesis where no group is
open. Only if no term offends can it be that a group is left open.

Terms may be built by hand here: an operator may have any text, and a number may lack a value.
-/

namespace Reckoner

/-- A term is admissible if it is a parenthesis, an operator with the symbol of one, or a number with a
value. -/
theorem admissible_iff {t : Term} :
    t.Admissible ↔ t.kind = .opening ∨ t.kind = .closing ∨
      (t.kind = .operator ∧ ∃ op : Operator, t.text = op.symbol) ∨
      (t.kind = .number ∧ t.value ≠ none) := by
  constructor
  · rintro (hopening | hclosing | ⟨x, rfl⟩ | ⟨c, rfl⟩)
    · exact .inl hopening
    · exact .inr (.inl hclosing)
    · refine .inr (.inr (.inr ⟨x.kind_term, ?_⟩))
      rw [x.value_term]
      exact Option.some_ne_none x.value
    · exact .inr (.inr (.inl ⟨c.kind_term, c.op, (Term.operator?_eq_some_iff.mp c.writes).2⟩))
  · rintro (hopening | hclosing | ⟨hkind, op, htext⟩ | ⟨hkind, hvalue⟩)
    · exact .inl hopening
    · exact .inr (.inl hclosing)
    · exact .inr (.inr (.inr ⟨⟨t, op, Term.operator?_eq_some_iff.mpr ⟨hkind, htext⟩⟩, rfl⟩))
    · obtain ⟨value, hsome⟩ := Option.ne_none_iff_exists'.mp hvalue
      exact .inr (.inr (.inl ⟨⟨t, value, Term.operand?_eq_some_iff.mpr ⟨hkind, hsome⟩⟩, rfl⟩))

/-- A term that cannot be put into postfix order after the given ones, with the rejection that names
the reason. -/
inductive Offends (before : List Term) (t : Term) : Rejection → Prop
  | unlisted (hkind : t.kind = .operator) (htext : ∀ op : Operator, t.text ≠ op.symbol) :
      Offends before t ⟨.unlistedOperator t.text, Text.quote t.text, none⟩
  | stray (hkind : t.kind = .unknown) : Offends before t
      ⟨.malformed, "Unexpected term " ++ Text.quote t.text ++ " in infix sequence", none⟩
  | unmatched (hkind : t.kind = .closing) (hcount : openingCount before ≤ closingCount before) :
      Offends before t ⟨.malformed, "Unmatched closing parenthesis", none⟩

/-- Whether no term of a sequence offends after those before it. -/
def NoneOffends (terms : List Term) : Prop :=
  ∀ before t after, terms = before ++ t :: after → ∀ r, ¬ Offends before t r

/-- An operator term writes no operator if its text is the symbol of none. -/
theorem operator?_eq_none_iff {t : Term} (hkind : t.kind = .operator) :
    t.operator? = none ↔ ∀ op : Operator, t.text ≠ op.symbol := by
  rw [Option.eq_none_iff_forall_ne_some]
  refine forall_congr' fun op => not_congr (Term.operator?_eq_some_iff.trans ?_)
  exact and_iff_right hkind

/-- A closing parenthesis is refused where no group is open. -/
theorem step_of_closing {yard : Yard} {t : Term} (hkind : t.kind = .closing)
    (hheld : openingCount yard.held = 0) : yard.step t = .error .unmatchedClosing := by
  cases hstep : yard.step t with
  | ok next =>
    have hcount := (Yard.move_of_step hstep).openingCount_held
    simp [hkind, hheld] at hcount
  | error fault =>
    rcases Yard.step_eq_error hstep with ⟨hoperator, _⟩ | ⟨_, _, rfl⟩ | ⟨hunknown, _⟩
    · rw [hkind] at hoperator
      cases hoperator
    · rfl
    · rw [hkind] at hunknown
      cases hunknown

/-- The yard refuses a term exactly if it offends after the terms that were taken in. -/
theorem offends_iff {before : List Term} {yard : Yard} {t : Term} {r : Rejection}
    (hrun : before.foldlM Yard.step .empty = .ok yard) :
    Offends before t r ↔ ∃ fault, yard.step t = .error fault ∧ fault.rejection = r := by
  have hcount : openingCount yard.held + closingCount before = 0 + openingCount before :=
    Yard.openingCount_held_of_foldlM hrun
  constructor
  · intro h
    cases h with
    | unlisted hkind htext =>
      refine ⟨.unlistedOperator t.text, ?_, rfl⟩
      simp [Yard.step, hkind, (operator?_eq_none_iff hkind).mpr htext]
    | stray hkind => exact ⟨.strayInfixTerm t.text, by simp [Yard.step, hkind], rfl⟩
    | unmatched hkind hle =>
      exact ⟨.unmatchedClosing, step_of_closing hkind (by omega), rfl⟩
  · rintro ⟨fault, hstep, rfl⟩
    rcases Yard.step_eq_error hstep with ⟨hkind, hop, rfl⟩ | ⟨hkind, hheld, rfl⟩ | ⟨hkind, rfl⟩
    · exact .unlisted hkind ((operator?_eq_none_iff hkind).mp hop)
    · rw [openingCount_eq_zero.mpr hheld] at hcount
      exact .unmatched hkind (by omega)
    · exact .stray hkind

/-- The yard takes in a sequence exactly if none of its terms offends. -/
theorem noneOffends_iff {terms : List Term} :
    NoneOffends terms ↔ ∃ yard, terms.foldlM Yard.step .empty = .ok yard := by
  constructor
  · intro h
    cases hrun : terms.foldlM Yard.step .empty with
    | ok yard => exact ⟨yard, rfl⟩
    | error fault =>
      obtain ⟨first, t, rest, yard, rfl, hfirst, hstep⟩ := exists_step_of_foldlM_error hrun
      exact absurd ((offends_iff hfirst).mpr ⟨fault, hstep, rfl⟩) (h first t rest rfl _)
  · rintro ⟨yard, hrun⟩ before t after rfl r hoffends
    rw [List.foldlM_append, bind_eq_ok_iff] at hrun
    obtain ⟨middle, hbefore, hrest⟩ := hrun
    obtain ⟨fault, hstep, _⟩ := (offends_iff hbefore).mp hoffends
    rw [List.foldlM_cons, hstep] at hrest
    cases hrest

/-- After a sequence was taken in, it is refused in the end exactly if more groups were opened than
closed. -/
theorem finish_refuses_iff {terms : List Term} {yard : Yard} {r : Rejection}
    (hrun : terms.foldlM Yard.step .empty = .ok yard) :
    (∃ fault, yard.finish = .error fault ∧ fault.rejection = r) ↔
      closingCount terms < openingCount terms ∧
        r = ⟨.malformed, "Unmatched opening parenthesis", none⟩ := by
  have hcount : openingCount yard.held + closingCount terms = 0 + openingCount terms :=
    Yard.openingCount_held_of_foldlM hrun
  constructor
  · rintro ⟨fault, hfinish, rfl⟩
    obtain ⟨rfl, hopen⟩ := Yard.finish_eq_error_iff.mp hfinish
    exact ⟨by omega, rfl⟩
  · rintro ⟨hlt, rfl⟩
    exact ⟨.unmatchedOpening, Yard.finish_eq_error_iff.mpr ⟨rfl, by omega⟩, rfl⟩

/-- What cannot be put into postfix order is refused for the first term that offends, or, if there is
none, for a group that is left open. -/
theorem toPostfix_refuses_iff {terms : List Term} {r : Rejection} :
    (∃ fault, toPostfix terms = .error fault ∧ fault.rejection = r) ↔
      (∃ before t after, terms = before ++ t :: after ∧ NoneOffends before ∧ Offends before t r) ∨
        (NoneOffends terms ∧ closingCount terms < openingCount terms ∧
          r = ⟨.malformed, "Unmatched opening parenthesis", none⟩) := by
  constructor
  · rintro ⟨fault, h, hr⟩
    rcases bind_eq_error_iff.mp h with hrun | ⟨yard, hrun, hfinish⟩
    · obtain ⟨first, t, rest, yard, rfl, hfirst, hstep⟩ := exists_step_of_foldlM_error hrun
      exact .inl ⟨first, t, rest, rfl, noneOffends_iff.mpr ⟨yard, hfirst⟩,
        (offends_iff hfirst).mpr ⟨fault, hstep, hr⟩⟩
    · exact .inr ⟨noneOffends_iff.mpr ⟨yard, hrun⟩,
        (finish_refuses_iff hrun).mp ⟨fault, hfinish, hr⟩⟩
  · rintro (⟨before, t, after, rfl, hnone, hoffends⟩ | ⟨hnone, hopen⟩)
    · obtain ⟨yard, hbefore⟩ := noneOffends_iff.mp hnone
      obtain ⟨fault, hstep, hr⟩ := (offends_iff hbefore).mp hoffends
      refine ⟨fault, bind_eq_error_iff.mpr (.inl ?_), hr⟩
      rw [foldlM_append_of_ok hbefore, List.foldlM_cons, hstep]
      rfl
    · obtain ⟨yard, hrun⟩ := noneOffends_iff.mp hnone
      obtain ⟨fault, hfinish, hr⟩ := (finish_refuses_iff hrun).mpr hopen
      exact ⟨fault, bind_eq_error_iff.mpr (.inr ⟨yard, hrun, hfinish⟩), hr⟩

/-- A term that does not offend is admissible if it is no number without a value. -/
theorem admissible_of_not_offends {before : List Term} {t : Term} (h : ∀ r, ¬ Offends before t r)
    (hvalue : t.kind = .number → t.value ≠ none) : t.Admissible := by
  refine admissible_iff.mpr ?_
  cases hkind : t.kind with
  | number => exact .inr (.inr (.inr ⟨rfl, hvalue hkind⟩))
  | operator =>
    refine .inr (.inr (.inl ⟨rfl, Classical.byContradiction fun hnone => ?_⟩))
    exact h _ (.unlisted hkind fun op htext => hnone ⟨op, htext⟩)
  | opening => exact .inl rfl
  | closing => exact .inr (.inl rfl)
  | unknown => exact absurd (.stray hkind) (h _)

/-- Strict judgement has no objection exactly to the sequences that can be put into postfix order and
hold no number without a value. -/
theorem objection?_true_eq_none_iff_toPostfix {terms : List Term} :
    objection? true terms = none ↔
      (∃ ordered, toPostfix terms = .ok ordered) ∧
        ∀ t ∈ terms, t.kind = .number → t.value ≠ none := by
  constructor
  · intro h
    refine ⟨exists_toPostfix_of_objection?_eq_none h, fun t ht hkind => ?_⟩
    have hterm := admissible_iff.mp ((objection?_eq_none_iff.mp h).1 t ht)
    simpa [hkind] using hterm
  · rintro ⟨⟨ordered, hordered⟩, hvalues⟩
    obtain ⟨yard, hrun, hfinish⟩ := toPostfix_eq_ok_iff.mp hordered
    refine objection?_eq_none_iff.mpr ⟨fun t ht => ?_, ?_, fun _ =>
      not_closesUnopened_of_toPostfix hordered⟩
    · obtain ⟨before, after, rfl⟩ := List.append_of_mem ht
      exact admissible_of_not_offends (noneOffends_iff.mpr ⟨yard, hrun⟩ before t after rfl)
        (hvalues t ht)
    · have hcount : openingCount yard.held + closingCount terms = 0 + openingCount terms :=
        Yard.openingCount_held_of_foldlM hrun
      rw [openingCount_eq_zero.mpr (Yard.finish_eq_ok_iff.mp hfinish).1] at hcount
      omega

/-- The judgement and the yard agree on every sequence of terms. Strict judgement has no objection
exactly to what can be put into postfix order and holds no number without a value. Without strict
nesting only the terms and the counts of parentheses matter, and what is objected to only under strict
nesting cannot be put into postfix order for an unmatched closing parenthesis. A sequence that cannot
be put into postfix order is refused for its first term that offends, or, if none does, for a group
that is left open. -/
theorem judgement_agrees_with_yard (terms : List Term) :
    (objection? true terms = none ↔
        (∃ ordered, toPostfix terms = .ok ordered) ∧
          ∀ t ∈ terms, t.kind = .number → t.value ≠ none) ∧
      (objection? false terms = none ↔
        (∀ t ∈ terms, t.kind = .opening ∨ t.kind = .closing ∨
          (t.kind = .operator ∧ ∃ op : Operator, t.text = op.symbol) ∨
          (t.kind = .number ∧ t.value ≠ none)) ∧
          openingCount terms = closingCount terms) ∧
      (objection? false terms = none → objection? true terms ≠ none →
        ∃ fault, toPostfix terms = .error fault ∧
          fault.rejection = ⟨.malformed, "Unmatched closing parenthesis", none⟩) ∧
      ∀ r, (∃ fault, toPostfix terms = .error fault ∧ fault.rejection = r) ↔
        (∃ before t after, terms = before ++ t :: after ∧ NoneOffends before ∧
          Offends before t r) ∨
        (NoneOffends terms ∧ closingCount terms < openingCount terms ∧
          r = ⟨.malformed, "Unmatched opening parenthesis", none⟩) := by
  refine ⟨objection?_true_eq_none_iff_toPostfix, ?_, fun hloose hstrict => ?_,
    fun r => toPostfix_refuses_iff⟩
  · simp only [objection?_false_eq_none_iff, admissible_iff]
  · obtain ⟨hterms, hcount⟩ := objection?_false_eq_none_iff.mp hloose
    have hcloses : ClosesUnopened 0 terms := Classical.byContradiction fun hnone =>
      hstrict (objection?_eq_none_iff.mpr ⟨hterms, hcount, fun _ => hnone⟩)
    exact ⟨.unmatchedClosing, toPostfix_of_closesUnopened hterms hcloses, rfl⟩

/-- The terms of `)1(` are objected to only under strict nesting, and in `1&)` the first of two terms
that offend is the one that belongs to no expression. -/
theorem judgement_agrees_with_yard_misnested :
    objection? false (scan ")1(") = none ∧ objection? true (scan ")1(") ≠ none ∧
      (∃ fault, toPostfix (scan ")1(") = .error fault ∧
        fault.rejection = ⟨.malformed, "Unmatched closing parenthesis", none⟩) ∧
      ∃ fault, toPostfix (scan "1&)") = .error fault ∧ fault.rejection =
        ⟨.malformed, "Unexpected term '&' in infix sequence", none⟩ := by
  have hloose : objection? false (scan ")1(") = none := by decide +kernel
  have hstrict : objection? true (scan ")1(") ≠ none := by decide +kernel
  refine ⟨hloose, hstrict, (judgement_agrees_with_yard _).2.2.1 hloose hstrict, ?_⟩
  refine ((judgement_agrees_with_yard (scan "1&)")).2.2.2 _).mpr (.inl ?_)
  have hscan : scan "1&)" = [Term.number "1"] ++ Term.unknown "&" :: [Term.paren ")"] := by
    decide +kernel
  have hnone : NoneOffends [Term.number "1"] := noneOffends_iff.mpr ⟨_, rfl⟩
  have hmessage : "Unexpected term '&' in infix sequence" =
      "Unexpected term " ++ Text.quote (Term.unknown "&").text ++ " in infix sequence" := by
    decide +kernel
  refine ⟨_, _, _, hscan, hnone, ?_⟩
  rw [hmessage]
  exact .stray rfl

end Reckoner
