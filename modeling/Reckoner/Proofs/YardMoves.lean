import Reckoner.Proofs.Tree
import Reckoner.Yard

/-!
# Moves of the yard

What a yard can do with a term is told once, as a relation with one rule for each kind of term,
and taking in a term succeeds exactly by that relation. From the rules it follows that the yard
loses and invents nothing: the terms in postfix order are the terms in infix order without the
parentheses, in another order.

A term that is refused has no rule; the faults are described separately.
-/

namespace Reckoner

namespace Yard

/-- Only operators yield to an operator. -/
theorem kind_of_yields {op : Operator} {t : Term} (h : yields op t = true) :
    t.kind = .operator := by
  unfold yields at h
  split at h
  · next top htop => exact (Term.operator?_eq_some_iff.mp htop).1
  · cases h

/-- A known operator yields to another one if it binds at least as tightly. -/
theorem yields_connective (op : Operator) (c : Connective) :
    yields op c.term = decide (op.precedence ≤ c.op.precedence) := by
  rw [yields, c.writes]

/-- The held terms fall into those that a release lets go and those that it keeps. -/
theorem exists_split (test : Term → Bool) (held : List Term) :
    ∃ released kept, held = released ++ kept ∧ (∀ t ∈ released, test t = true) ∧
      ∀ t ∈ kept.head?, test t = false := by
  refine ⟨held.takeWhile test, held.dropWhile test, List.takeWhile_append_dropWhile.symm,
    fun t ht => ?_, fun t ht => ?_⟩
  · exact List.all_eq_true.mp List.all_takeWhile t ht
  · have hhead := List.head?_dropWhile_not test held
    rw [ht] at hhead
    simpa using hhead

/-- A release stops at the first term that fails the test. -/
theorem release_append {test : Term → Bool} {released kept : List Term}
    (hreleased : ∀ t ∈ released, test t = true) (hkept : ∀ t ∈ kept.head?, test t = false)
    (gone : List Term) :
    release test ⟨released ++ kept, gone⟩ = ⟨kept, released.reverse ++ gone⟩ := by
  have hstop : kept.takeWhile test = [] ∧ kept.dropWhile test = kept := by
    cases kept with
    | nil => exact ⟨rfl, rfl⟩
    | cons t rest =>
      have hfail := hkept t rfl
      simp [hfail]
  rw [release, List.takeWhile_append_of_pos hreleased, List.dropWhile_append_of_pos hreleased,
    hstop.1, hstop.2, List.append_nil]

/-- What taking in a term does to a yard. A number leaves at once. An operator lets go the latest
held operators that bind at least as tightly and is held itself. An opening parenthesis is held,
and a closing one lets its group go and takes the opening one away. -/
inductive Move : Yard → Term → Yard → Prop
  | number {held gone : List Term} {t : Term} (hkind : t.kind = .number) :
      Move ⟨held, gone⟩ t ⟨held, t :: gone⟩
  | operator {released kept gone : List Term} (c : Connective)
      (hreleased : ∀ t ∈ released, yields c.op t = true)
      (hkept : ∀ t ∈ kept.head?, yields c.op t = false) :
      Move ⟨released ++ kept, gone⟩ c.term ⟨c.term :: kept, released.reverse ++ gone⟩
  | opening {held gone : List Term} {t : Term} (hkind : t.kind = .opening) :
      Move ⟨held, gone⟩ t ⟨t :: held, gone⟩
  | closing {group outer gone : List Term} {t bracket : Term} (hkind : t.kind = .closing)
      (hgroup : ∀ u ∈ group, u.kind ≠ .opening) (hbracket : bracket.kind = .opening) :
      Move ⟨group ++ bracket :: outer, gone⟩ t ⟨outer, group.reverse ++ gone⟩

/-- A move is what a step does. -/
theorem Move.step_eq {yard next : Yard} {t : Term} (h : Move yard t next) :
    yard.step t = .ok next := by
  cases h with
  | number hkind => simp [step, hkind]
  | operator c hreleased hkept =>
    simp only [step, c.kind_term, c.writes, release_append hreleased hkept]
  | opening hkind => simp [step, hkind]
  | closing hkind hgroup hbracket =>
    simp only [step, hkind]
    rw [release_append (fun u hu => decide_eq_true (hgroup u hu)) (by simp [hbracket])]

/-- A step that succeeds is a move. -/
theorem move_of_step {yard next : Yard} {t : Term} (h : yard.step t = .ok next) :
    Move yard t next := by
  obtain ⟨held, gone⟩ := yard
  unfold step at h
  split at h
  · next hkind =>
    cases h
    exact .number hkind
  · split at h
    · cases h
    · next op hop =>
      obtain ⟨released, kept, rfl, hreleased, hkept⟩ := exists_split (yields op) held
      rw [release_append hreleased hkept] at h
      cases h
      exact .operator ⟨t, op, hop⟩ hreleased hkept
  · next hkind =>
    cases h
    exact .opening hkind
  · next hkind =>
    obtain ⟨group, kept, rfl, hgroup, hkept⟩ :=
      exists_split (fun top => decide (top.kind ≠ .opening)) held
    rw [release_append hgroup hkept] at h
    cases kept with
    | nil => cases h
    | cons bracket outer =>
      cases h
      refine .closing hkind (fun u hu => of_decide_eq_true (hgroup u hu)) ?_
      have hbracket := of_decide_eq_false (hkept bracket rfl)
      exact Classical.not_not.mp hbracket
  · cases h

/-- A refused term is an operator of no known symbol, a closing parenthesis without an opening
one, or no part of an expression at all. -/
theorem step_eq_error {yard : Yard} {t : Term} {fault : Fault}
    (h : yard.step t = .error fault) :
    (t.kind = .operator ∧ t.operator? = none ∧ fault = .unlistedOperator t.text) ∨
      (t.kind = .closing ∧ (∀ u ∈ yard.held, u.kind ≠ .opening) ∧ fault = .unmatchedClosing) ∨
      (t.kind = .unknown ∧ fault = .strayInfixTerm t.text) := by
  obtain ⟨held, gone⟩ := yard
  unfold step at h
  split at h
  · cases h
  · next hkind =>
    split at h
    · next hop =>
      cases h
      exact .inl ⟨hkind, hop, rfl⟩
    · cases h
  · cases h
  · next hkind =>
    obtain ⟨group, kept, rfl, hgroup, hkept⟩ :=
      exists_split (fun top => decide (top.kind ≠ .opening)) held
    rw [release_append hgroup hkept] at h
    cases kept with
    | nil =>
      cases h
      refine .inr (.inl ⟨hkind, fun u hu => ?_, rfl⟩)
      rw [List.append_nil] at hu
      exact of_decide_eq_true (hgroup u hu)
    | cons bracket outer => cases h
  · next hkind =>
    cases h
    exact .inr (.inr ⟨hkind, rfl⟩)

/-- The terms that a yard has let go or will let go. -/
def content (yard : Yard) : List Term :=
  yard.gone ++ yard.held.filter fun t => t.kind ≠ .opening

/-- Letting terms go moves them from the held ones to the gone ones. -/
theorem released_perm (released gone kept : List Term) :
    (released.reverse ++ gone ++ kept).Perm (gone ++ (released ++ kept)) := by
  rw [← List.append_assoc]
  refine List.Perm.append_right kept ?_
  exact ((List.reverse_perm released).append_right gone).trans List.perm_append_comm

/-- A move adds its term to the content of the yard, unless the term is a parenthesis. -/
theorem Move.content_perm {yard next : Yard} {t : Term} (h : Move yard t next) :
    next.content.Perm (([t].filter fun u => !u.isParenthesis) ++ yard.content) := by
  cases h with
  | number hkind => simp [content, Term.isParenthesis, hkind]
  | @operator released kept gone c hreleased hkept =>
    have hall : released.filter (fun u => decide (u.kind ≠ .opening)) = released := by
      refine List.filter_eq_self.mpr fun u hu => ?_
      simp [kind_of_yields (hreleased u hu)]
    have hself : [c.term].filter (fun u => !u.isParenthesis) = [c.term] := by simp
    rw [content, content, List.filter_append, hall, List.filter_cons_of_pos (by simp), hself]
    exact List.perm_middle.trans ((released_perm released gone _).cons c.term)
  | opening hkind => simp [content, Term.isParenthesis, hkind]
  | @closing group outer gone t bracket hkind hgroup hbracket =>
    have hall : group.filter (fun u => decide (u.kind ≠ .opening)) = group :=
      List.filter_eq_self.mpr fun u hu => decide_eq_true (hgroup u hu)
    have hnone : [t].filter (fun u => !u.isParenthesis) = [] := by
      simp [Term.isParenthesis, hkind]
    rw [content, content, List.filter_append, hall, hnone,
      List.filter_cons_of_neg (by simp [hbracket])]
    exact released_perm group gone _

/-- A run adds its terms to the content of the yard, without the parentheses. -/
theorem content_perm_of_foldlM {terms : List Term} {yard next : Yard}
    (h : terms.foldlM step yard = .ok next) :
    next.content.Perm ((terms.filter fun t => !t.isParenthesis) ++ yard.content) := by
  induction terms generalizing yard with
  | nil =>
    cases h
    exact List.Perm.refl _
  | cons t rest ih =>
    rw [List.foldlM_cons, bind_eq_ok_iff] at h
    obtain ⟨middle, hstep, hrest⟩ := h
    have hmove := (move_of_step hstep).content_perm
    refine (ih hrest).trans ((hmove.append_left _).trans ?_)
    rw [← List.append_assoc]
    refine List.Perm.append_right _ (List.perm_append_comm.trans ?_)
    rw [← List.filter_append]
    exact List.Perm.refl _

/-- A yard without an opening parenthesis lets everything go, the latest held term first. -/
theorem finish_eq_ok_iff {yard : Yard} {ordered : List Term} :
    yard.finish = .ok ordered ↔
      (∀ t ∈ yard.held, t.kind ≠ .opening) ∧ ordered = yard.gone.reverse ++ yard.held := by
  unfold finish
  split
  · next hopen =>
    obtain ⟨t, ht, hkind⟩ := List.any_eq_true.mp hopen
    refine ⟨fun h => (nomatch h), fun h => ?_⟩
    exact absurd (of_decide_eq_true hkind) (h.1 t ht)
  · next hopen =>
    refine ⟨fun h => ?_, fun h => by rw [h.2]⟩
    cases h
    refine ⟨fun t ht hkind => hopen ?_, rfl⟩
    exact List.any_eq_true.mpr ⟨t, ht, decide_eq_true hkind⟩

/-- At the end of a sequence only an opening parenthesis can be at fault. -/
theorem finish_eq_error {yard : Yard} {fault : Fault} (h : yard.finish = .error fault) :
    fault = .unmatchedOpening := by
  unfold finish at h
  split at h
  · cases h
    rfl
  · cases h

end Yard

/-- A sequence is put into postfix order by a run of the yard and a release of what is left. -/
theorem toPostfix_eq_ok_iff {terms ordered : List Term} :
    toPostfix terms = .ok ordered ↔
      ∃ yard, terms.foldlM Yard.step .empty = .ok yard ∧ yard.finish = .ok ordered := by
  unfold toPostfix
  exact bind_eq_ok_iff

/-- The postfix order holds the terms of the infix order without the parentheses. -/
theorem perm_of_toPostfix {terms ordered : List Term} (h : toPostfix terms = .ok ordered) :
    ordered.Perm (terms.filter fun t => !t.isParenthesis) := by
  obtain ⟨yard, hrun, hfinish⟩ := toPostfix_eq_ok_iff.mp h
  obtain ⟨hheld, rfl⟩ := Yard.finish_eq_ok_iff.mp hfinish
  have hcontent : yard.content = yard.gone ++ yard.held := by
    rw [Yard.content, List.filter_eq_self.mpr fun t ht => decide_eq_true (hheld t ht)]
  have hperm := Yard.content_perm_of_foldlM hrun
  rw [hcontent] at hperm
  refine ((List.reverse_perm yard.gone).append_right yard.held).trans (hperm.trans ?_)
  simp [Yard.content, Yard.empty]

/-- No parenthesis is a number. -/
theorem numberCount_filter (terms : List Term) :
    numberCount (terms.filter fun t => !t.isParenthesis) = numberCount terms := by
  rw [numberCount, List.countP_filter, numberCount]
  refine List.countP_congr fun t _ => ?_
  cases hkind : t.kind <;> simp [Term.isParenthesis, hkind]

/-- No parenthesis is an operator. -/
theorem operatorCount_filter (terms : List Term) :
    operatorCount (terms.filter fun t => !t.isParenthesis) = operatorCount terms := by
  rw [operatorCount, List.countP_filter, operatorCount]
  refine List.countP_congr fun t _ => ?_
  cases hkind : t.kind <;> simp [Term.isParenthesis, hkind]

/-- Putting a sequence into postfix order keeps the number of its numbers. -/
theorem numberCount_of_toPostfix {terms ordered : List Term} (h : toPostfix terms = .ok ordered) :
    numberCount ordered = numberCount terms := by
  rw [← numberCount_filter terms, numberCount, (perm_of_toPostfix h).countP_eq]
  rfl

/-- Putting a sequence into postfix order keeps the number of its operators. -/
theorem operatorCount_of_toPostfix {terms ordered : List Term}
    (h : toPostfix terms = .ok ordered) : operatorCount ordered = operatorCount terms := by
  rw [← operatorCount_filter terms, operatorCount, (perm_of_toPostfix h).countP_eq]
  rfl

end Reckoner
