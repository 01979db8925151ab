import Reckoner.Proofs.Grammar

/-!
# What a yard holds

A yard holds opening parentheses and known operators, and nothing else. Within a group the held
operators bind the tighter the later they came: an operator comes to lie only on one that binds
less tightly, for it lets all others go first. Every step keeps this order, whatever the sequence.
-/

namespace Reckoner

/-- Held terms, from the latest down: opening parentheses, and operators that bind tighter than the
operator right below them, if there is one. -/
inductive Stacked : List Term → Prop
  | nil : Stacked []
  | opening {bracket : Term} {below : List Term} (hbracket : bracket.kind = .opening) :
      Stacked below → Stacked (bracket :: below)
  | operator (c : Connective) {below : List Term} (hlooser : LooserThan c.op.precedence below) :
      Stacked below → Stacked (c.term :: below)

namespace Stacked

/-- What lies below the latest held terms is in order too. -/
theorem of_append {above below : List Term} (h : Stacked (above ++ below)) : Stacked below := by
  induction above with
  | nil => exact h
  | cons t above ih =>
    cases h with
    | opening _ hbelow => exact ih hbelow
    | operator _ _ hbelow => exact ih hbelow

/-- An opening parenthesis or a known operator is held, nothing else. -/
theorem kind_or_connective {held : List Term} (h : Stacked held) :
    ∀ t ∈ held, t.kind = .opening ∨ ∃ c : Connective, c.term = t := by
  induction h with
  | nil => exact fun t ht => absurd ht List.not_mem_nil
  | opening hbracket _ ih => exact List.forall_mem_cons.mpr ⟨.inl hbracket, ih⟩
  | operator c _ _ ih => exact List.forall_mem_cons.mpr ⟨.inr ⟨c, rfl⟩, ih⟩

/-- No number is held. -/
theorem kind_ne_number {held : List Term} (h : Stacked held) : ∀ t ∈ held, t.kind ≠ .number := by
  intro t ht
  rcases h.kind_or_connective t ht with hopening | ⟨c, rfl⟩
  · simp [hopening]
  · simp

/-- If the latest held operator binds less tightly than a level, then so do all operators of its
group. -/
theorem precedence_lt {level : Nat} {above below : List Term} {c : Connective}
    (h : Stacked (above ++ c.term :: below)) (hlooser : LooserThan level (above ++ c.term :: below))
    (hgroup : ∀ t ∈ above, t.kind ≠ .opening) : c.op.precedence < level := by
  induction above generalizing level with
  | nil => exact hlooser c.term rfl c.op c.writes
  | cons t above ih =>
    cases h with
    | opening hbracket _ => exact absurd hbracket (hgroup t List.mem_cons_self)
    | operator d hbelow hrest =>
      have hlt := ih hrest hbelow fun u hu => hgroup u (List.mem_cons_of_mem _ hu)
      exact Nat.lt_trans hlt (hlooser d.term rfl d.op d.writes)

end Stacked

namespace Yard

/-- An operator that does not let the latest held term go binds tighter than it. -/
theorem looserThan_of_yields_eq_false {op : Operator} {held : List Term}
    (h : ∀ t ∈ held.head?, yields op t = false) : LooserThan op.precedence held := by
  intro t ht top htop
  have hyields := yields_connective op ⟨t, top, htop⟩
  rw [h t ht] at hyields
  exact Nat.not_le.mp (of_decide_eq_false hyields.symm)

/-- A move keeps the held terms in order. -/
theorem Move.stacked {yard next : Yard} {t : Term} (h : Move yard t next)
    (hheld : Stacked yard.held) : Stacked next.held := by
  cases h with
  | number hkind => exact hheld
  | operator c hreleased hkept =>
    exact .operator c (looserThan_of_yields_eq_false hkept) hheld.of_append
  | opening hkind => exact .opening hkind hheld
  | closing hkind hgroup hbracket =>
    cases hheld.of_append with
    | opening _ houter => exact houter
    | operator _ _ houter => exact houter

/-- A run keeps the held terms in order. -/
theorem stacked_of_foldlM {terms : List Term} {yard next : Yard}
    (h : terms.foldlM step yard = .ok next) (hheld : Stacked yard.held) : Stacked next.held :=
  keeps_of_foldlM (fun _ _ _ hstacked hstep => (move_of_step hstep).stacked hstacked) h hheld

end Yard

end Reckoner
