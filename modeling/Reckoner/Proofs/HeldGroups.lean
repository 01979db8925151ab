import Reckoner.Proofs.Balance
import Reckoner.Proofs.Held

/-!
# Groups of held terms

The opening parentheses that a yard holds part its operators into groups, the outermost of which no
parenthesis opens. From the latest down, each operator of a group binds less tightly than the one
before. There are four precedences, so no group holds more than four operators, and the number of
open groups bounds what is held.

A yard that lets terms go one by one is in this order after each of them, for it never passes an
opening parenthesis. An operator that looks up each held operator before letting it go thus finds
them all.
-/

namespace Reckoner

/-- The held terms between opening parentheses, the latest group first. -/
def groups (held : List Term) : List (List Term) :=
  held.splitOnP fun t => t.kind = .opening

/-- An opening parenthesis parts the terms above it from those below. -/
theorem groups_opening {bracket : Term} (hbracket : bracket.kind = .opening) (below : List Term) :
    groups (bracket :: below) = [] :: groups below := by
  rw [groups, List.splitOnP_cons_eq_if_modifyHead, if_pos (decide_eq_true hbracket)]
  rfl

/-- An operator belongs to the group that is held right below it. -/
theorem groups_connective {below first : List Term} {others : List (List Term)} (c : Connective)
    (hgroups : groups below = first :: others) :
    groups (c.term :: below) = (c.term :: first) :: others := by
  rw [groups] at hgroups ⊢
  rw [List.splitOnP_cons_eq_if_modifyHead, if_neg (by simp), hgroups]
  rfl

/-- Known operators, from the latest down, of which the first binds less tightly than a level, and
each other one less tightly than the one before. -/
def Loosens (level : Nat) (group : List Term) : Prop :=
  ∃ ops : List Operator, group.map Term.operator? = ops.map some ∧
    (level :: ops.map Operator.precedence).Pairwise (· > ·)

theorem loosens_nil (level : Nat) : Loosens level [] :=
  ⟨[], rfl, List.pairwise_singleton _ _⟩

/-- An operator below a level loosens on with what loosens from its own precedence. -/
theorem Loosens.connective {level : Nat} {group : List Term} {c : Connective}
    (h : Loosens c.op.precedence group) (hlevel : c.op.precedence < level) :
    Loosens level (c.term :: group) := by
  obtain ⟨ops, hops, hpairwise⟩ := h
  refine ⟨c.op :: ops, by rw [List.map_cons, c.writes, hops, List.map_cons], ?_⟩
  refine List.pairwise_cons.mpr ⟨fun precedence hmem => ?_, hpairwise⟩
  rcases List.mem_cons.mp hmem with rfl | hmem
  · exact hlevel
  · exact Nat.lt_trans (List.rel_of_pairwise_cons hpairwise hmem) hlevel

/-- There are four precedences. -/
theorem Operator.precedence_lt_four (op : Operator) : op.precedence < 4 := by
  cases op <;> decide

/-- Every operator binds less tightly than level four, so whatever is held does. -/
theorem looserThan_four (held : List Term) : LooserThan 4 held :=
  fun _ _ op _ => op.precedence_lt_four

/-- A level that the latest held operator binds less tightly than is above its precedence. -/
theorem LooserThan.precedence_lt {level : Nat} {c : Connective} {below : List Term}
    (h : LooserThan level (c.term :: below)) : c.op.precedence < level :=
  h c.term rfl c.op c.writes

namespace Stacked

/-- In each group of held terms the operators loosen from the latest down, in the latest group from
any level that the latest held operator is below. -/
theorem exists_groups {held : List Term} {level : Nat} (h : Stacked held)
    (hlooser : LooserThan level held) : ∃ first others, groups held = first :: others ∧
      Loosens level first ∧ ∀ group ∈ others, Loosens 4 group := by
  induction h generalizing level with
  | nil => exact ⟨[], [], rfl, loosens_nil level, fun _ hgroup => absurd hgroup List.not_mem_nil⟩
  | @opening bracket below hbracket _ ih =>
    obtain ⟨first, others, hgroups, hfirst, hothers⟩ := ih (looserThan_four below)
    refine ⟨[], first :: others, by rw [groups_opening hbracket, hgroups], loosens_nil level, ?_⟩
    exact List.forall_mem_cons.mpr ⟨hfirst, hothers⟩
  | operator c hbelow _ ih =>
    obtain ⟨first, others, hgroups, hfirst, hothers⟩ := ih hbelow
    have hlevel := hlooser.precedence_lt
    exact ⟨c.term :: first, others, groups_connective c hgroups, hfirst.connective hlevel, hothers⟩

/-- An opening parenthesis lies on a group of at most four operators, and the latest group is no larger
than a level that its latest operator is below. -/
theorem length_le {held : List Term} {level : Nat} (h : Stacked held)
    (hlooser : LooserThan level held) : held.length ≤ 5 * openingCount held + level := by
  induction h generalizing level with
  | nil => exact Nat.zero_le _
  | @opening bracket below hbracket _ ih =>
    have hbelow := ih (looserThan_four below)
    rw [List.length_cons, openingCount_cons, if_pos hbracket]
    omega
  | @operator c below hbelow _ ih =>
    have hlength := ih hbelow
    have hlevel := hlooser.precedence_lt
    rw [List.length_cons, openingCount_cons, if_neg (by simp)]
    omega

end Stacked

namespace Yard

/-- Let go the latest held operators one by one as long as they bind at least as tightly as an
operator. The precedence of each is looked up by its text, which is a fault if it has none. -/
def releaseByLookup (op : Operator) : List Term → List Term → Except Fault Yard
  | [], gone => .ok ⟨[], gone⟩
  | top :: below, gone =>
    if top.kind = .operator then
      match Operator.ofSymbol? top.text with
      | none => .error (.unlistedOperator top.text)
      | some known =>
        if op.precedence ≤ known.precedence then releaseByLookup op below (top :: gone)
        else .ok ⟨top :: below, gone⟩
    else .ok ⟨top :: below, gone⟩

/-- A release looks at the latest held term first. -/
theorem release_cons (test : Term → Bool) (top : Term) (below gone : List Term) :
    release test ⟨top :: below, gone⟩ =
      if test top then release test ⟨below, top :: gone⟩ else ⟨top :: below, gone⟩ := by
  cases htest : test top <;> simp [release, htest]

/-- As long as all held operators are known, no look-up fails, and those that yield are let go. -/
theorem releaseByLookup_eq_ok (op : Operator) {held : List Term}
    (hknown : ∀ t ∈ held, t.kind = .operator → ∃ known, Operator.ofSymbol? t.text = some known)
    (gone : List Term) :
    releaseByLookup op held gone = .ok (release (yields op) ⟨held, gone⟩) := by
  induction held generalizing gone with
  | nil => rfl
  | cons top below ih =>
    obtain ⟨htop, hbelow⟩ := List.forall_mem_cons.mp hknown
    rw [releaseByLookup, release_cons]
    by_cases hkind : top.kind = .operator
    · obtain ⟨known, hfound⟩ := htop hkind
      have hwrites : top.operator? = some known := by rw [Term.operator?, if_pos hkind, hfound]
      have hyields := yields_connective op ⟨top, known, hwrites⟩
      simp only [if_pos hkind, hfound, hyields, decide_eq_true_eq, ih hbelow]
      split <;> rfl
    · have hyields : ¬ yields op top = true := fun h => hkind (kind_of_yields h)
      rw [if_neg hkind, if_neg hyields]

end Yard

/-- Whatever terms a yard has taken in without a fault, and whichever of the latest held operators it
has let go since, it holds nothing but opening parentheses and known operators, an opening parenthesis
for each group that is open, and in each group operators that bind the tighter the later they came.
So for each open group and outside of all it holds at most four operators, and an operator that looks
up the held ones one by one finds each of them and lets go those that yield. -/
theorem held_in_groups {terms released kept gone : List Term}
    (hrun : terms.foldlM Yard.step .empty = .ok ⟨released ++ kept, gone⟩)
    (hreleased : ∀ t ∈ released, t.kind ≠ .opening) :
    (∀ t ∈ kept, t.kind = .opening ∨
        t.kind = .operator ∧ ∃ op, Operator.ofSymbol? t.text = some op) ∧
      (openingCount kept : Int) = openingCount terms - closingCount terms ∧
      (∀ group ∈ groups kept, ∃ ops : List Operator, group.map Term.operator? = ops.map some ∧
        (ops.map Operator.precedence).Pairwise (· > ·)) ∧
      kept.length ≤ openingCount kept + 4 * (openingCount kept + 1) ∧
      ∀ op, Yard.releaseByLookup op kept (released.reverse ++ gone) =
        .ok (Yard.release (Yard.yields op) ⟨kept, released.reverse ++ gone⟩) := by
  have hkept : Stacked kept := (Yard.stacked_of_foldlM hrun .nil).of_append
  have hheld : ∀ t ∈ kept, t.kind = .opening ∨
      t.kind = .operator ∧ ∃ op, Operator.ofSymbol? t.text = some op := by
    intro t ht
    rcases hkept.kind_or_connective t ht with hopening | ⟨c, rfl⟩
    · exact .inl hopening
    · have htext := (Term.operator?_eq_some_iff.mp c.writes).2
      exact .inr ⟨c.kind_term, c.op, Operator.ofSymbol?_eq_some_iff.mpr htext⟩
  refine ⟨hheld, ?_, fun group hgroup => ?_, ?_, fun op => ?_⟩
  · have hcount := Yard.openingCount_held_of_foldlM hrun
    simp only [openingCount_append, openingCount_eq_zero.mpr hreleased, Yard.empty,
      openingCount_nil] at hcount
    omega
  · obtain ⟨first, others, hgroups, hfirst, hothers⟩ := hkept.exists_groups (looserThan_four kept)
    rw [hgroups] at hgroup
    obtain ⟨ops, hops, hpairwise⟩ := List.forall_mem_cons.mpr ⟨hfirst, hothers⟩ group hgroup
    exact ⟨ops, hops, hpairwise.of_cons⟩
  · have hlength := hkept.length_le (looserThan_four kept)
    omega
  · refine Yard.releaseByLookup_eq_ok op (fun t ht hkind => ?_) _
    rcases hheld t ht with hopening | ⟨_, hknown⟩
    · rw [hopening] at hkind
      cases hkind
    · exact hknown

/-- After `2-3%4*5^(6+7%8/9^` nine terms are held, the most that one open group allows. When the last
of them is let go, an operator `%` looks up the two above the `+`, which yield to it, and then the `+`,
which does not. -/
theorem held_in_groups_full :
    ∃ released kept gone : List Term,
      (scan "2-3%4*5^(6+7%8/9^").foldlM Yard.step .empty = .ok ⟨released ++ kept, gone⟩ ∧
        (∀ t ∈ released, t.kind ≠ .opening) ∧ released = [.operator "^"] ∧
        (released ++ kept).length = 1 + 4 * (1 + 1) ∧ openingCount kept = 1 ∧
        groups kept = [[.operator "/", .operator "%", .operator "+"],
          [.operator "^", .operator "*", .operator "%", .operator "-"]] ∧
        (∀ group ∈ groups kept, ∃ ops : List Operator, group.map Term.operator? = ops.map some ∧
          (ops.map Operator.precedence).Pairwise (· > ·)) ∧
        kept.length ≤ 1 + 4 * (1 + 1) ∧
        Yard.releaseByLookup .mod kept (released.reverse ++ gone) =
          .ok ⟨kept.drop 2, (kept.take 2).reverse ++ released.reverse ++ gone⟩ := by
  let kept : List Term := [.operator "/", .operator "%", .operator "+", .paren "(", .operator "^",
    .operator "*", .operator "%", .operator "-"]
  let gone : List Term := [.number "9", .number "8", .number "7", .number "6", .number "5",
    .number "4", .number "3", .number "2"]
  have hrun : (scan "2-3%4*5^(6+7%8/9^").foldlM Yard.step .empty =
      .ok ⟨[.operator "^"] ++ kept, gone⟩ := eq_ok_of_toOption (by decide +kernel)
  have hreleased : ∀ t ∈ [Term.operator "^"], t.kind ≠ .opening := by decide
  have hopen : openingCount kept = 1 := by decide +kernel
  obtain ⟨_, _, hgroups, hlength, hlookup⟩ := held_in_groups hrun hreleased
  rw [hopen] at hlength
  refine ⟨_, kept, gone, hrun, hreleased, rfl, rfl, hopen, by decide +kernel, hgroups, hlength, ?_⟩
  exact (hlookup .mod).trans (congrArg Except.ok (by decide +kernel))

end Reckoner
