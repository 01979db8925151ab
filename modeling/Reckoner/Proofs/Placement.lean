import Reckoner.Proofs.Held
import Reckoner.Proofs.Reach

/-!
# Placement

Where each term of an infix sequence ends up in its postfix order, for every sequence that has one,
well-formed or not. An operator comes after exactly those terms to its right that lie before its
reach; all other terms keep their order.

The yard is followed by the positions of its terms. What it has let go, followed by what it holds,
is at every moment the final order of all terms taken in so far: the next term is put between the
two, and nothing is moved later.
-/

namespace Reckoner

/-- Whether the term at one position has to come before the term at another one: the terms keep their
order, unless the first of the two is an operator that reaches beyond the second. -/
structure Precedes (terms : List Term) (a b : Fin terms.length) : Prop where
  ne : a ≠ b
  reach_le : a < b → (terms.get a).kind = .operator → reach terms a ≤ b
  lt_reach : b < a → (terms.get b).kind = .operator ∧ a < reach terms b

/-- The positions among the given ones at which an operator stands. -/
def operatorsAmong (terms : List Term) (positions : List (Fin terms.length)) :
    List (Fin terms.length) :=
  positions.filter fun i => (terms.get i).kind = .operator

/-- The operators among two parts are those among the first and those among the second. -/
theorem operatorsAmong_append (terms : List Term) (first second : List (Fin terms.length)) :
    operatorsAmong terms (first ++ second) =
      operatorsAmong terms first ++ operatorsAmong terms second :=
  List.filter_append first second

/-- The positions of the terms that are held or gone, the latest first. The terms before position `n`
were taken in, and the operators that wait no longer than up to a position before `m` are gone. -/
structure Placed (terms : List Term) (n m : Nat) (held gone : List (Fin terms.length)) : Prop where
  lt_of_mem_held : ∀ i ∈ held, i.val < n
  mem_iff : ∀ i : Fin terms.length, i ∈ gone.reverse ++ operatorsAmong terms held ↔
    i.val < n ∧ (terms.get i).isParenthesis = false
  openSince : ∀ (above below : List (Fin terms.length)) i, held = above ++ i :: below →
    OpenSince terms i n (openingCount (above.map terms.get))
  ended : ∀ i ∈ gone, (terms.get i).kind = .operator → ∃ j < m, Ends terms i j
  pending : ∀ i ∈ held, (terms.get i).kind = .operator → ∀ j < m, ¬ Ends terms i j
  ordered : (gone.reverse ++ operatorsAmong terms held).Pairwise (Precedes terms)

/-- Before the first term nothing is held or gone. -/
theorem placed_zero (terms : List Term) : Placed terms 0 0 [] [] where
  lt_of_mem_held i hi := absurd hi List.not_mem_nil
  mem_iff i := by simp [operatorsAmong]
  openSince above below i h := by simp at h
  ended i hi := absurd hi List.not_mem_nil
  pending i hi := absurd hi List.not_mem_nil
  ordered := .nil

/-- An element can be put anywhere in a sequence if it stands in order with what comes before and
after it. -/
theorem pairwise_append_cons {α : Type} {R : α → α → Prop} {first last : List α} {a : α}
    (h : (first ++ last).Pairwise R) (hbefore : ∀ b ∈ first, R b a) (hafter : ∀ b ∈ last, R a b) :
    (first ++ a :: last).Pairwise R := by
  obtain ⟨hfirst, hlast, hcross⟩ := List.pairwise_append.mp h
  refine List.pairwise_append.mpr ⟨hfirst, List.pairwise_cons.mpr ⟨hafter, hlast⟩, ?_⟩
  exact fun b hb => List.forall_mem_cons.mpr ⟨hbefore b hb, hcross b hb⟩

section Precedes

variable {terms : List Term} {i x : Fin terms.length}

/-- A term comes before the next one to be taken in if it is no operator or has ended by then. -/
theorem precedes_of_ended (hlt : i < x)
    (hended : (terms.get i).kind = .operator → ∃ j ≤ x.val, Ends terms i j) :
    Precedes terms i x where
  ne := Fin.ne_of_lt hlt
  reach_le _ hkind := by
    obtain ⟨j, hj, hends⟩ := hended hkind
    exact Nat.le_of_not_lt fun hreach => (lt_reach_iff x.isLt).mp hreach j hj hends
  lt_reach h := absurd h (Nat.lt_asymm hlt)

/-- A term comes before one to its left exactly if that is an operator that reaches beyond it. -/
theorem precedes_iff_of_lt (hlt : i < x) :
    Precedes terms x i ↔ (terms.get i).kind = .operator ∧ x < reach terms i where
  mp h := h.lt_reach hlt
  mpr hreach := ⟨Fin.ne_of_gt hlt, fun h => absurd h (Nat.lt_asymm hlt), fun _ => hreach⟩

/-- An operator that has not ended comes after the next term to be taken in. -/
theorem precedes_of_pending (hlt : i < x) (hkind : (terms.get i).kind = .operator)
    (hpending : ∀ j ≤ x.val, ¬ Ends terms i j) : Precedes terms x i :=
  (precedes_iff_of_lt hlt).mpr ⟨hkind, (lt_reach_iff x.isLt).mpr hpending⟩

/-- Of two terms at most one has to come before the other. -/
theorem Precedes.asymm (h : Precedes terms i x) : ¬ Precedes terms x i := by
  intro h'
  rcases Nat.lt_or_gt_of_ne (Fin.val_ne_of_ne h.ne) with hlt | hlt
  · obtain ⟨hkind, hreach⟩ := h'.lt_reach hlt
    exact Nat.not_lt.mpr (h.reach_le hlt hkind) hreach
  · obtain ⟨hkind, hreach⟩ := h.lt_reach hlt
    exact Nat.not_lt.mpr (h'.reach_le hlt hkind) hreach

end Precedes

namespace Placed

variable {terms : List Term} {n m : Nat} {held gone : List (Fin terms.length)}

/-- A term lets an operator of its group go if it closes the group or is an operator that binds no
tighter. -/
def LetsGo (t : Term) (c : Connective) : Prop :=
  t.kind = .closing ∨ ∃ next ∈ t.operator?, next.precedence ≤ c.op.precedence

/-- A held operator waits up to the next term if no group was opened and left open since and the term
lets it go. -/
theorem ends_iff {above below : List (Fin terms.length)} {i : Fin terms.length} {c : Connective}
    (h : Placed terms n m (above ++ i :: below) gone) (hn : n < terms.length)
    (hi : terms.get i = c.term) :
    Ends terms i n ↔
      openingCount (above.map terms.get) = 0 ∧ LetsGo (terms.get ⟨n, hn⟩) c := by
  refine (h.openSince above below i rfl).ends_iff (h.lt_of_mem_held i (by simp)) ?_ ?_
  · rw [← hi]
    exact List.getElem?_eq_getElem i.isLt
  · exact List.getElem?_eq_getElem hn

/-- The latest held operators, up to the latest opening parenthesis, wait no longer than up to a term
that lets them go. -/
theorem ends_of_mem {released kept : List (Fin terms.length)} {i : Fin terms.length}
    {c : Connective} (h : Placed terms n m (released ++ kept) gone) (hn : n < terms.length)
    (hgroup : ∀ j ∈ released, (terms.get j).kind ≠ .opening) (hmem : i ∈ released)
    (hi : terms.get i = c.term) (hgo : LetsGo (terms.get ⟨n, hn⟩) c) : Ends terms i n := by
  obtain ⟨above, below, rfl⟩ := List.append_of_mem hmem
  rw [List.append_assoc, List.cons_append] at h
  refine (h.ends_iff hn hi).mpr ⟨openingCount_eq_zero.mpr fun t ht => ?_, hgo⟩
  obtain ⟨j, hj, rfl⟩ := List.mem_map.mp ht
  exact hgroup j (List.mem_append_left _ hj)

/-- If the wait of a held operator ends with the next term, then no opening parenthesis lies above it
and the term lets it go. -/
theorem exists_above_of_ends {released kept : List (Fin terms.length)} {i : Fin terms.length}
    {c : Connective} (h : Placed terms n m (released ++ kept) gone) (hn : n < terms.length)
    (hmem : i ∈ kept) (hi : terms.get i = c.term) (hends : Ends terms i n) :
    ∃ above below, kept = above ++ i :: below ∧ (∀ t ∈ above.map terms.get, t.kind ≠ .opening) ∧
      LetsGo (terms.get ⟨n, hn⟩) c := by
  obtain ⟨above, below, rfl⟩ := List.append_of_mem hmem
  rw [← List.append_assoc] at h
  obtain ⟨hcount, hgo⟩ := (h.ends_iff hn hi).mp hends
  rw [List.map_append, openingCount_append] at hcount
  exact ⟨above, below, rfl, openingCount_eq_zero.mp (by omega), hgo⟩

/-- A term that is neither a closing parenthesis nor an operator lets no operator go. -/
theorem not_letsGo {t : Term} {c : Connective} (hclosing : t.kind ≠ .closing)
    (hoperator : t.kind ≠ .operator) : ¬ LetsGo t c := by
  rintro (hkind | ⟨next, hnext, _⟩)
  · exact hclosing hkind
  · exact hoperator (Term.operator?_eq_some_iff.mp hnext).1

/-- When the operators that wait no longer than up to the next term are let go, nothing is moved in
the order. -/
theorem release {released kept : List (Fin terms.length)}
    (h : Placed terms n n (released ++ kept) gone)
    (hreleased : ∀ i ∈ released, (terms.get i).kind = .operator ∧ Ends terms i n)
    (hkept : ∀ i ∈ kept, (terms.get i).kind = .operator → ¬ Ends terms i n) :
    Placed terms n (n + 1) kept (released.reverse ++ gone) := by
  have hall : operatorsAmong terms released = released :=
    List.filter_eq_self.mpr fun i hi => decide_eq_true (hreleased i hi).1
  have horder : (released.reverse ++ gone).reverse ++ operatorsAmong terms kept =
      gone.reverse ++ operatorsAmong terms (released ++ kept) := by
    rw [operatorsAmong_append, hall, List.reverse_append, List.reverse_reverse, List.append_assoc]
  constructor
  · exact fun i hi => h.lt_of_mem_held i (List.mem_append_right _ hi)
  · rw [horder]
    exact h.mem_iff
  · rintro above below i rfl
    have hsince := h.openSince (released ++ above) below i (List.append_assoc _ _ _).symm
    have hnone : openingCount (released.map terms.get) = 0 := by
      refine openingCount_eq_zero.mpr fun t ht => ?_
      obtain ⟨i, hi, rfl⟩ := List.mem_map.mp ht
      rw [(hreleased i hi).1]
      decide
    rwa [List.map_append, openingCount_append, hnone, Nat.zero_add] at hsince
  · intro i hi hkind
    rcases List.mem_append.mp hi with hreversed | hgone
    · exact ⟨n, Nat.lt_succ_self n, (hreleased i (List.mem_reverse.mp hreversed)).2⟩
    · obtain ⟨j, hj, hends⟩ := h.ended i hgone hkind
      exact ⟨j, Nat.lt_succ_of_lt hj, hends⟩
  · intro i hi hkind j hj
    rcases Nat.lt_succ_iff_lt_or_eq.mp hj with hlt | rfl
    · exact h.pending i (List.mem_append_right _ hi) hkind j hlt
    · exact hkept i hi hkind
  · rw [horder]
    exact h.ordered

/-- A held term that opens no group is an operator. -/
theorem exists_connective_of_mem {i : Fin terms.length} (hstacked : Stacked (held.map terms.get))
    (hi : i ∈ held) (hkind : (terms.get i).kind ≠ .opening) :
    ∃ c : Connective, terms.get i = c.term := by
  rcases hstacked.kind_or_connective (terms.get i) (List.mem_map_of_mem hi) with hopening | ⟨c, hc⟩
  · exact absurd hopening hkind
  · exact ⟨c, hc.symm⟩

/-- A number or an opening parenthesis lets nothing go. -/
theorem release_nothing (h : Placed terms n n held gone) (hn : n < terms.length)
    (hstacked : Stacked (held.map terms.get)) (hclosing : (terms.get ⟨n, hn⟩).kind ≠ .closing)
    (hoperator : (terms.get ⟨n, hn⟩).kind ≠ .operator) : Placed terms n (n + 1) held gone := by
  have hnothing : Placed terms n n ([] ++ held) gone := h
  refine hnothing.release (fun i hi => absurd hi List.not_mem_nil) fun i hi hkind hends => ?_
  obtain ⟨c, hc⟩ := exists_connective_of_mem hstacked hi (by rw [hkind]; decide)
  obtain ⟨_, _, _, _, hgo⟩ := hnothing.exists_above_of_ends hn hi hc hends
  exact not_letsGo hclosing hoperator hgo

/-- An operator lets go the held ones that yield to it, down to the first that does not. -/
theorem release_yielding {released kept : List (Fin terms.length)} {c : Connective}
    (h : Placed terms n n (released ++ kept) gone) (hn : n < terms.length)
    (hstacked : Stacked ((released ++ kept).map terms.get)) (hterm : terms.get ⟨n, hn⟩ = c.term)
    (hreleased : ∀ i ∈ released, Yard.yields c.op (terms.get i) = true)
    (hkept : ∀ t ∈ (kept.map terms.get).head?, Yard.yields c.op t = false) :
    Placed terms n (n + 1) kept (released.reverse ++ gone) := by
  have hgroup : ∀ i ∈ released, (terms.get i).kind ≠ .opening := by
    intro i hi
    rw [Yard.kind_of_yields (hreleased i hi)]
    decide
  refine h.release (fun i hi => ?_) (fun i hi hkind hends => ?_)
  · obtain ⟨d, hd⟩ := exists_connective_of_mem hstacked (List.mem_append_left _ hi) (hgroup i hi)
    have hyields := hreleased i hi
    rw [hd, Yard.yields_connective] at hyields
    refine ⟨by rw [hd, d.kind_term], h.ends_of_mem hn hgroup hi hd (.inr ?_)⟩
    rw [hterm, c.writes]
    exact ⟨c.op, rfl, of_decide_eq_true hyields⟩
  · -- an operator that binds no tighter would be among those let go
    have hmem : i ∈ released ++ kept := List.mem_append_right _ hi
    obtain ⟨d, hd⟩ := exists_connective_of_mem hstacked hmem (by rw [hkind]; decide)
    obtain ⟨above, below, rfl, hnone, hgo⟩ := h.exists_above_of_ends hn hi hd hends
    rw [List.map_append] at hstacked
    have hbelow := hstacked.of_append
    have hlooser := Yard.looserThan_of_yields_eq_false hkept
    rw [List.map_append, List.map_cons, hd] at hbelow hlooser
    have hlt := hbelow.precedence_lt hlooser hnone
    rw [hterm] at hgo
    rcases hgo with hclosing | ⟨next, hnext, hle⟩
    · rw [c.kind_term] at hclosing
      cases hclosing
    · rw [c.writes] at hnext
      cases hnext
      omega

/-- A closing parenthesis lets go what is held of its group. -/
theorem release_group {group outer : List (Fin terms.length)} {bracket : Fin terms.length}
    (h : Placed terms n n (group ++ bracket :: outer) gone) (hn : n < terms.length)
    (hstacked : Stacked ((group ++ bracket :: outer).map terms.get))
    (hkind : (terms.get ⟨n, hn⟩).kind = .closing)
    (hgroup : ∀ i ∈ group, (terms.get i).kind ≠ .opening)
    (hbracket : (terms.get bracket).kind = .opening) :
    Placed terms n (n + 1) (bracket :: outer) (group.reverse ++ gone) := by
  refine h.release (fun i hi => ?_) (fun i hi hoperator hends => ?_)
  · obtain ⟨d, hd⟩ := exists_connective_of_mem hstacked (List.mem_append_left _ hi) (hgroup i hi)
    exact ⟨by rw [hd, d.kind_term], h.ends_of_mem hn hgroup hi hd (.inl hkind)⟩
  · -- the opening parenthesis lies above every operator outside the group
    have hmem : i ∈ group ++ bracket :: outer := List.mem_append_right _ hi
    obtain ⟨d, hd⟩ := exists_connective_of_mem hstacked hmem (by rw [hoperator]; decide)
    obtain ⟨above, below, heq, hnone, _⟩ := h.exists_above_of_ends hn hi hd hends
    cases above with
    | nil =>
      cases heq
      rw [hbracket] at hoperator
      cases hoperator
    | cons j above =>
      cases heq
      exact hnone (terms.get bracket) (by simp) hbracket

/-- The next term comes after everything gone and before every operator held. -/
theorem ordered_insert (h : Placed terms n (n + 1) held gone) (hn : n < terms.length) :
    (gone.reverse ++ ⟨n, hn⟩ :: operatorsAmong terms held).Pairwise (Precedes terms) := by
  refine pairwise_append_cons h.ordered (fun i hi => ?_) (fun i hi => ?_)
  · have hlt := ((h.mem_iff i).mp (List.mem_append_left _ hi)).1
    refine precedes_of_ended hlt fun hkind => ?_
    obtain ⟨j, hj, hends⟩ := h.ended i (List.mem_reverse.mp hi) hkind
    exact ⟨j, Nat.le_of_lt_succ hj, hends⟩
  · obtain ⟨hheld, hkind⟩ := List.mem_filter.mp hi
    refine precedes_of_pending (h.lt_of_mem_held i hheld) (of_decide_eq_true hkind) fun j hj => ?_
    exact h.pending i hheld (of_decide_eq_true hkind) j (Nat.lt_succ_of_le hj)

/-- The positions up to the next one are the next one and those before it. -/
theorem val_lt_succ_iff (hn : n < terms.length) (i : Fin terms.length) :
    i.val < n + 1 ↔ i = ⟨n, hn⟩ ∨ i.val < n := by
  rw [Fin.ext_iff, Nat.lt_succ_iff_lt_or_eq, or_comm]

/-- If the next term is no parenthesis, then its position joins those that are ordered. -/
theorem mem_insert_iff (h : Placed terms n m held gone) (hn : n < terms.length)
    (hterm : (terms.get ⟨n, hn⟩).isParenthesis = false) (i : Fin terms.length) :
    i ∈ gone.reverse ++ ⟨n, hn⟩ :: operatorsAmong terms held ↔
      i.val < n + 1 ∧ (terms.get i).isParenthesis = false := by
  have hmem : i ∈ gone.reverse ++ ⟨n, hn⟩ :: operatorsAmong terms held ↔
      i = ⟨n, hn⟩ ∨ i ∈ gone.reverse ++ operatorsAmong terms held := by
    simp only [List.mem_append, List.mem_cons]
    exact or_left_comm
  rw [hmem, h.mem_iff, val_lt_succ_iff hn, or_and_right]
  refine or_congr_left ⟨fun heq => ⟨heq, heq ▸ hterm⟩, And.left⟩

/-- If the next term is a parenthesis, then its position does not join those that are ordered. -/
theorem mem_iff_succ (h : Placed terms n m held gone) (hn : n < terms.length)
    (hterm : (terms.get ⟨n, hn⟩).isParenthesis = true) (i : Fin terms.length) :
    i ∈ gone.reverse ++ operatorsAmong terms held ↔
      i.val < n + 1 ∧ (terms.get i).isParenthesis = false := by
  rw [h.mem_iff, val_lt_succ_iff hn, or_and_right]
  refine (or_iff_right ?_).symm
  rintro ⟨rfl, hnone⟩
  rw [hterm] at hnone
  cases hnone

/-- The next position follows those that are held. -/
theorem lt_of_mem_cons (h : Placed terms n m held gone) (hn : n < terms.length) :
    ∀ i ∈ (⟨n, hn⟩ : Fin terms.length) :: held, i.val < n + 1 :=
  List.forall_mem_cons.mpr
    ⟨Nat.lt_succ_self n, fun i hi => Nat.lt_succ_of_lt (h.lt_of_mem_held i hi)⟩

/-- If the next term is held, then it opens a group for all held below it if it is an opening
parenthesis. -/
theorem openSince_cons (h : Placed terms n m held gone) (hn : n < terms.length)
    (hclosing : closingCount [terms[n]] = 0) (above below : List (Fin terms.length))
    (i : Fin terms.length) (heq : ⟨n, hn⟩ :: held = above ++ i :: below) :
    OpenSince terms i (n + 1) (openingCount (above.map terms.get)) := by
  cases above with
  | nil =>
    cases heq
    exact openSince_succ_self terms n
  | cons x above =>
    cases heq
    have hcount : openingCount ((⟨n, hn⟩ :: above).map terms.get) =
        openingCount [terms[n]] + openingCount (above.map terms.get) :=
      openingCount_cons_eq_add _ _
    refine (h.openSince above below i rfl).succ (h.lt_of_mem_held i (by simp))
      (List.getElem?_eq_getElem hn) ?_
    omega

/-- An operator that was just taken in has not ended, and no other one ends by being covered. -/
theorem pending_cons (h : Placed terms n (n + 1) held gone) (hn : n < terms.length) :
    ∀ i ∈ (⟨n, hn⟩ : Fin terms.length) :: held, (terms.get i).kind = .operator →
      ∀ j < n + 1, ¬ Ends terms i j := by
  refine List.forall_mem_cons.mpr ⟨fun _ j hj hends => ?_, h.pending⟩
  have hlt : n < j := hends.1
  omega

/-- A number is gone at once. -/
theorem number (h : Placed terms n (n + 1) held gone) (hn : n < terms.length)
    (hkind : (terms.get ⟨n, hn⟩).kind = .number) :
    Placed terms (n + 1) (n + 1) held (⟨n, hn⟩ :: gone) := by
  have hget : terms[n].kind = .number := hkind
  have horder : (⟨n, hn⟩ :: gone).reverse ++ operatorsAmong terms held =
      gone.reverse ++ ⟨n, hn⟩ :: operatorsAmong terms held := by
    rw [List.reverse_cons, List.append_assoc, List.singleton_append]
  constructor
  · exact fun i hi => Nat.lt_succ_of_lt (h.lt_of_mem_held i hi)
  · rw [horder]
    exact h.mem_insert_iff hn (by simp [Term.isParenthesis, hget])
  · rintro above below i rfl
    refine (h.openSince above below i rfl).succ (h.lt_of_mem_held i (by simp))
      (List.getElem?_eq_getElem hn) ?_
    simp [hget]
  · refine List.forall_mem_cons.mpr ⟨fun hoperator => ?_, h.ended⟩
    rw [hkind] at hoperator
    cases hoperator
  · exact h.pending
  · rw [horder]
    exact h.ordered_insert hn

/-- An operator is held. -/
theorem operator (h : Placed terms n (n + 1) held gone) (hn : n < terms.length)
    (hkind : (terms.get ⟨n, hn⟩).kind = .operator) :
    Placed terms (n + 1) (n + 1) (⟨n, hn⟩ :: held) gone := by
  have hget : terms[n].kind = .operator := hkind
  have horder : operatorsAmong terms (⟨n, hn⟩ :: held) = ⟨n, hn⟩ :: operatorsAmong terms held :=
    List.filter_cons_of_pos (decide_eq_true hkind)
  constructor
  · exact h.lt_of_mem_cons hn
  · rw [horder]
    exact h.mem_insert_iff hn (by simp [Term.isParenthesis, hget])
  · exact h.openSince_cons hn (by simp [hget])
  · exact h.ended
  · exact h.pending_cons hn
  · rw [horder]
    exact h.ordered_insert hn

/-- An opening parenthesis is held. -/
theorem opening (h : Placed terms n (n + 1) held gone) (hn : n < terms.length)
    (hkind : (terms.get ⟨n, hn⟩).kind = .opening) :
    Placed terms (n + 1) (n + 1) (⟨n, hn⟩ :: held) gone := by
  have hget : terms[n].kind = .opening := hkind
  have horder : operatorsAmong terms (⟨n, hn⟩ :: held) = operatorsAmong terms held :=
    List.filter_cons_of_neg (by simp [hget])
  constructor
  · exact h.lt_of_mem_cons hn
  · rw [horder]
    exact h.mem_iff_succ hn (by simp [Term.isParenthesis, hget])
  · exact h.openSince_cons hn (by simp [hget])
  · exact h.ended
  · exact h.pending_cons hn
  · rw [horder]
    exact h.ordered

/-- A closing parenthesis takes the opening one away. -/
theorem closing {bracket : Fin terms.length} {outer : List (Fin terms.length)}
    (h : Placed terms n (n + 1) (bracket :: outer) gone) (hn : n < terms.length)
    (hkind : (terms.get ⟨n, hn⟩).kind = .closing)
    (hbracket : (terms.get bracket).kind = .opening) :
    Placed terms (n + 1) (n + 1) outer gone := by
  have hget : terms[n].kind = .closing := hkind
  have horder : operatorsAmong terms (bracket :: outer) = operatorsAmong terms outer :=
    List.filter_cons_of_neg (by rw [hbracket]; decide)
  constructor
  · exact fun i hi => Nat.lt_succ_of_lt (h.lt_of_mem_held i (List.mem_cons_of_mem _ hi))
  · rw [← horder]
    exact h.mem_iff_succ hn (by simp [Term.isParenthesis, hget])
  · rintro above below i rfl
    refine (h.openSince (bracket :: above) below i rfl).succ (h.lt_of_mem_held i (by simp))
      (List.getElem?_eq_getElem hn) ?_
    rw [List.map_cons, openingCount_cons, hbracket]
    simp [hget]
  · exact h.ended
  · exact fun i hi => h.pending i (List.mem_cons_of_mem _ hi)
  · rw [← horder]
    exact h.ordered

end Placed

/-- Taking in the next term keeps its position and those of the terms before it in their final
order. -/
theorem exists_placed_of_move {terms : List Term} {n : Nat} {yard next : Yard}
    {held gone : List (Fin terms.length)} (h : Placed terms n n held gone) (hn : n < terms.length)
    (hheld : yard.held = held.map terms.get) (hgone : yard.gone = gone.map terms.get)
    (hstacked : Stacked yard.held) (hmove : yard.Move (terms.get ⟨n, hn⟩) next) :
    ∃ held' gone', next.held = held'.map terms.get ∧ next.gone = gone'.map terms.get ∧
      Placed terms (n + 1) (n + 1) held' gone' := by
  rw [hheld] at hstacked
  generalize ht : terms.get ⟨n, hn⟩ = t at hmove
  cases hmove with
  | number hkind =>
    rw [← ht] at hkind
    refine ⟨held, ⟨n, hn⟩ :: gone, hheld, by rw [List.map_cons, ht, ← hgone], ?_⟩
    exact (h.release_nothing hn hstacked (by rw [hkind]; decide) (by rw [hkind]; decide)).number hn
      hkind
  | operator c hreleased hkept =>
    obtain ⟨released, kept, rfl, rfl, rfl⟩ := List.map_eq_append_iff.mp hheld.symm
    refine ⟨⟨n, hn⟩ :: kept, released.reverse ++ gone, by rw [List.map_cons, ht],
      by rw [List.map_append, List.map_reverse, ← hgone], ?_⟩
    have hyields : ∀ i ∈ released, Yard.yields c.op (terms.get i) = true :=
      fun i hi => hreleased _ (List.mem_map_of_mem hi)
    exact (h.release_yielding hn hstacked ht hyields hkept).operator hn (by rw [ht, c.kind_term])
  | opening hkind =>
    rw [← ht] at hkind
    refine ⟨⟨n, hn⟩ :: held, gone, by rw [List.map_cons, ht, ← hheld], hgone, ?_⟩
    exact (h.release_nothing hn hstacked (by rw [hkind]; decide) (by rw [hkind]; decide)).opening hn
      hkind
  | closing hkind hgroup hbracket =>
    rw [← ht] at hkind
    obtain ⟨group, rest, rfl, rfl, hrest⟩ := List.map_eq_append_iff.mp hheld.symm
    obtain ⟨bracket, outer, rfl, rfl, rfl⟩ := List.map_eq_cons_iff.mp hrest
    refine ⟨outer, group.reverse ++ gone, rfl,
      by rw [List.map_append, List.map_reverse, ← hgone], ?_⟩
    have hinner : ∀ i ∈ group, (terms.get i).kind ≠ .opening :=
      fun i hi => hgroup _ (List.mem_map_of_mem hi)
    exact (h.release_group hn hstacked hkind hinner hbracket).closing hn hkind hbracket

/-- After any number of terms the yard holds and has let go the terms at positions that are in their
final order. -/
theorem exists_placed_of_foldlM {terms : List Term} {n : Nat} (hn : n ≤ terms.length) {yard : Yard}
    (h : (terms.take n).foldlM Yard.step .empty = .ok yard) :
    ∃ held gone, yard.held = held.map terms.get ∧ yard.gone = gone.map terms.get ∧
      Placed terms n n held gone := by
  -- over the number of terms taken in: their positions refer to the whole sequence
  induction n generalizing yard with
  | zero =>
    cases h
    exact ⟨[], [], rfl, rfl, placed_zero terms⟩
  | succ n ih =>
    rw [List.take_succ_eq_append_getElem hn, List.foldlM_append, bind_eq_ok_iff] at h
    obtain ⟨before, hbefore, hlast⟩ := h
    obtain ⟨held, gone, hheld, hgone, hplaced⟩ := ih (Nat.le_of_succ_le hn) hbefore
    rw [List.foldlM_cons, bind_eq_ok_iff] at hlast
    obtain ⟨next, hstep, hnext⟩ := hlast
    cases hnext
    exact exists_placed_of_move hplaced hn hheld hgone (Yard.stacked_of_foldlM hbefore .nil)
      (Yard.move_of_step hstep)

/-- In a sequence that is pairwise in order, one element comes before another exactly if it has to. -/
theorem idxOf_lt_idxOf_iff {α : Type} [DecidableEq α] {R : α → α → Prop} {as : List α}
    (h : as.Pairwise R) {a b : α} (ha : a ∈ as) (hb : b ∈ as) (hne : a ≠ b)
    (hasymm : R a b → ¬ R b a) : as.idxOf a < as.idxOf b ↔ R a b := by
  have hrel {c d : α} (hd : d ∈ as) (hlt : as.idxOf c < as.idxOf d) : R c d := by
    have hbound := List.idxOf_lt_length_of_mem hd
    have hpair := List.pairwise_iff_getElem.mp h _ _ (Nat.lt_trans hlt hbound) hbound hlt
    rwa [List.getElem_idxOf, List.getElem_idxOf] at hpair
  refine ⟨hrel hb, fun hab => Nat.lt_of_not_le fun hle => hasymm hab (hrel ha ?_)⟩
  exact Nat.lt_of_le_of_ne hle fun heq => hne ((List.idxOf_inj hb).mp heq).symm

/-- The positions of a sequence that can be put into postfix order, in that order, are pairwise in
order. -/
theorem exists_pairwise_precedes {terms ordered : List Term} (h : toPostfix terms = .ok ordered) :
    ∃ order : List (Fin terms.length), ordered = order.map terms.get ∧
      (∀ i, i ∈ order ↔ (terms.get i).isParenthesis = false) ∧ order.Pairwise (Precedes terms) := by
  obtain ⟨yard, hrun, hfinish⟩ := toPostfix_eq_ok_iff.mp h
  obtain ⟨hnone, rfl⟩ := Yard.finish_eq_ok_iff.mp hfinish
  have hstacked := Yard.stacked_of_foldlM hrun .nil
  rw [← List.take_length (l := terms)] at hrun
  obtain ⟨held, gone, hheld, hgone, hplaced⟩ := exists_placed_of_foldlM (Nat.le_refl _) hrun
  rw [hheld] at hnone hstacked
  have hall : operatorsAmong terms held = held := by
    refine List.filter_eq_self.mpr fun i hi => ?_
    obtain ⟨c, hc⟩ :=
      Placed.exists_connective_of_mem hstacked hi (hnone _ (List.mem_map_of_mem hi))
    rw [hc, c.kind_term]
    rfl
  have hordered := hplaced.ordered
  have hmem := hplaced.mem_iff
  rw [hall] at hordered hmem
  refine ⟨gone.reverse ++ held, ?_, fun i => (hmem i).trans (and_iff_right i.isLt), hordered⟩
  rw [hheld, hgone, List.map_append, List.map_reverse]

/-- The postfix order of any sequence that has one is an order of the positions of its terms, without
the parentheses. Of two terms the first comes after the second exactly if it is an operator that
reaches beyond it; so the numbers keep their order, and no operator comes before a number to its
left. -/
theorem toPostfix_comes_after_iff {terms ordered : List Term} (h : toPostfix terms = .ok ordered) :
    ∃ order : List (Fin terms.length), ordered = order.map terms.get ∧ order.Nodup ∧
      (∀ i, i ∈ order ↔ (terms.get i).isParenthesis = false) ∧
      (∀ i ∈ order, ∀ k ∈ order, i < k →
        (order.idxOf k < order.idxOf i ↔
          (terms.get i).kind = .operator ∧ k.val < reach terms i)) ∧
      ∀ i ∈ order, ∀ k ∈ order, i < k → (terms.get i).kind = .number →
        order.idxOf i < order.idxOf k := by
  obtain ⟨order, hordered, hmem, hpairwise⟩ := exists_pairwise_precedes h
  refine ⟨order, hordered, hpairwise.imp Precedes.ne, hmem, fun i hi k hk hik => ?_,
    fun i hi k hk hik hkind => ?_⟩
  · rw [idxOf_lt_idxOf_iff hpairwise hk hi (Fin.ne_of_gt hik) Precedes.asymm,
      precedes_iff_of_lt hik]
  · rw [idxOf_lt_idxOf_iff hpairwise hi hk (Fin.ne_of_lt hik) Precedes.asymm]
    refine precedes_of_ended hik fun hoperator => ?_
    rw [hkind] at hoperator
    cases hoperator

/-- In `1-2*(3+4)%5^`, which lacks an operand, the `*` reaches beyond the group to the `%`, and the
first operator reaches to the end. -/
theorem toPostfix_comes_after_iff_reach :
    reach (scan "1-2*(3+4)%5^") 3 = 9 ∧ reach (scan "1-2*(3+4)%5^") 1 = 12 ∧
      ∃ (ordered : List Term) (order : List (Fin (scan "1-2*(3+4)%5^").length)),
        toPostfix (scan "1-2*(3+4)%5^") = .ok ordered ∧
          ordered = order.map (scan "1-2*(3+4)%5^").get ∧
          order.idxOf ⟨6, by decide +kernel⟩ < order.idxOf ⟨3, by decide +kernel⟩ ∧
          ¬ order.idxOf ⟨10, by decide +kernel⟩ < order.idxOf ⟨3, by decide +kernel⟩ ∧
          order.idxOf ⟨10, by decide +kernel⟩ < order.idxOf ⟨1, by decide +kernel⟩ := by
  have hstar : reach (scan "1-2*(3+4)%5^") 3 = 9 := by decide +kernel
  have hminus : reach (scan "1-2*(3+4)%5^") 1 = 12 := by decide +kernel
  have hordered : toPostfix (scan "1-2*(3+4)%5^") = .ok [.number "1", .number "2", .number "3",
      .number "4", .operator "+", .operator "*", .number "5", .operator "^", .operator "%",
      .operator "-"] := eq_ok_of_toOption (by decide +kernel)
  obtain ⟨order, horder, _, hmem, hafter, _⟩ := toPostfix_comes_after_iff hordered
  have hplus := hafter ⟨3, by decide +kernel⟩ ((hmem _).mpr (by decide +kernel))
    ⟨6, by decide +kernel⟩ ((hmem _).mpr (by decide +kernel)) (by decide)
  have hfive := hafter ⟨3, by decide +kernel⟩ ((hmem _).mpr (by decide +kernel))
    ⟨10, by decide +kernel⟩ ((hmem _).mpr (by decide +kernel)) (by decide)
  have hlast := hafter ⟨1, by decide +kernel⟩ ((hmem _).mpr (by decide +kernel))
    ⟨10, by decide +kernel⟩ ((hmem _).mpr (by decide +kernel)) (by decide)
  refine ⟨hstar, hminus, _, order, hordered, horder, ?_, ?_, ?_⟩
  · exact hplus.mpr ⟨by decide +kernel, by rw [hstar]; decide⟩
  · intro hlt
    have hreach := (hfive.mp hlt).2
    rw [hstar] at hreach
    exact absurd hreach (by decide)
  · exact hlast.mpr ⟨by decide +kernel, by rw [hminus]; decide⟩

end Reckoner
