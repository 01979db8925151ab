import Mathlib.Data.List.Infix
import Reckoner.Proofs.Balance

/-!
# The reach of an operator

How far an operator of an infix sequence waits can be told from the sequence alone, well-formed or
not: up to the end of the group it stands in, or up to an operator in the same group that binds no
tighter, whichever comes first. Neither the stack of the yard nor the operands play a part in it.
-/

namespace Reckoner

/-- The terms strictly between two positions. -/
def between (terms : List Term) (i j : Nat) : List Term :=
  (terms.take j).drop (i + 1)

/-- Whether all groups opened in a sequence are closed in it, and no other. -/
def Balanced (terms : List Term) : Prop :=
  openingCount terms = closingCount terms ∧ ¬ ClosesUnopened 0 terms

instance (depth : Int) (terms : List Term) : Decidable (ClosesUnopened depth terms) :=
  decidable_of_iff (∃ first ∈ terms.inits, depth + openingCount first < closingCount first)
    (exists_congr fun _ => and_congr_left fun _ => List.mem_inits _ _)

instance (terms : List Term) : Decidable (Balanced terms) :=
  inferInstanceAs (Decidable (openingCount terms = closingCount terms ∧ ¬ ClosesUnopened 0 terms))

/-- Whether the operator at the first position waits no longer than up to the second: what stands
between them is balanced, and the term there closes the group of the operator or is an operator that
binds no tighter. -/
def Ends (terms : List Term) (i j : Nat) : Prop :=
  i < j ∧ Balanced (between terms i j) ∧
    ∃ t ∈ terms[j]?, t.kind = .closing ∨
      ∃ op ∈ terms[i]?.bind Term.operator?, ∃ next ∈ t.operator?, next.precedence ≤ op.precedence

instance (terms : List Term) (i j : Nat) : Decidable (Ends terms i j) :=
  inferInstanceAs (Decidable (_ ∧ _ ∧ _))

/-- The first position that ends the wait of an operator, the end of the sequence if there is none. -/
def reach (terms : List Term) (i : Nat) : Nat :=
  ((List.range terms.length).find? fun j => Ends terms i j).getD terms.length

/-- A position lies before the reach of an operator if neither it nor any position before it ends the
wait. -/
theorem lt_reach_iff {terms : List Term} {i k : Nat} (hk : k < terms.length) :
    k < reach terms i ↔ ∀ j ≤ k, ¬ Ends terms i j := by
  rw [reach]
  cases hfind : (List.range terms.length).find? fun j => Ends terms i j with
  | none =>
    have hnone := List.find?_range_eq_none.mp hfind
    refine iff_of_true hk fun j hj hends => ?_
    simpa [hends] using hnone j (Nat.lt_of_le_of_lt hj hk)
  | some r =>
    obtain ⟨hr, _, hbefore⟩ := List.find?_range_eq_some.mp hfind
    rw [Option.getD_some]
    constructor
    · intro hlt j hj hends
      simpa [hends] using hbefore j (Nat.lt_of_le_of_lt hj hlt)
    · intro hnone
      exact Nat.lt_of_not_le fun hle => hnone r hle (of_decide_eq_true hr)

/-- Whether, from right after one position up to another, the given number of groups is opened and
left open, and no group is closed that was open before. -/
structure OpenSince (terms : List Term) (i j depth : Nat) : Prop where
  count_eq : openingCount (between terms i j) = closingCount (between terms i j) + depth
  keeps : ¬ ClosesUnopened 0 (between terms i j)

/-- Right after a position nothing is open since. -/
theorem openSince_succ_self (terms : List Term) (i : Nat) : OpenSince terms i (i + 1) 0 := by
  have hnone : between terms i (i + 1) = [] :=
    List.drop_eq_nil_of_le (List.length_take_le (i + 1) terms)
  refine ⟨by rw [hnone]; rfl, ?_⟩
  rw [hnone, closesUnopened_nil]
  decide

/-- The term at the later position is the last one before the next. -/
theorem between_succ {terms : List Term} {i j : Nat} {t : Term} (hij : i < j)
    (hj : terms[j]? = some t) : between terms i (j + 1) = between terms i j ++ [t] := by
  obtain ⟨hlt, _⟩ := List.getElem?_eq_some_iff.mp hj
  have hlength : i + 1 ≤ (terms.take j).length := by
    rw [List.length_take]
    omega
  rw [between, List.take_add_one, hj, Option.toList_some, List.drop_append_of_le_length hlength]
  rfl

/-- One more term closes no group that is not open if as many are opened up to its end. -/
theorem not_closesUnopened_concat {terms : List Term} {t : Term} (h : ¬ ClosesUnopened 0 terms)
    (hcount : closingCount (terms ++ [t]) ≤ openingCount (terms ++ [t])) :
    ¬ ClosesUnopened 0 (terms ++ [t]) := by
  rintro ⟨first, hprefix, hlt⟩
  rcases List.prefix_concat_iff.mp hprefix with rfl | hbefore
  · omega
  · exact h ⟨first, hbefore, hlt⟩

namespace OpenSince

variable {terms : List Term} {i j depth : Nat}

/-- A parenthesis changes the number of groups open since. -/
theorem succ {depth' : Nat} {t : Term} (h : OpenSince terms i j depth) (hij : i < j)
    (hj : terms[j]? = some t)
    (hdepth : depth + openingCount [t] = depth' + closingCount [t]) :
    OpenSince terms i (j + 1) depth' := by
  have hcount := h.count_eq
  constructor
  · rw [between_succ hij hj, openingCount_append, closingCount_append]
    omega
  · rw [between_succ hij hj]
    refine not_closesUnopened_concat h.keeps ?_
    rw [openingCount_append, closingCount_append]
    omega

/-- If a group was opened and left open since, then what stands between is not balanced. -/
theorem balanced_iff (h : OpenSince terms i j depth) : Balanced (between terms i j) ↔ depth = 0 := by
  have hcount := h.count_eq
  constructor
  · rintro ⟨heq, _⟩
    omega
  · intro hzero
    exact ⟨by omega, h.keeps⟩

/-- An operator waits up to a position if no group is left open since and a parenthesis closes its
group there, or an operator binds no tighter. -/
theorem ends_iff {c : Connective} {t : Term} (h : OpenSince terms i j depth) (hij : i < j)
    (hi : terms[i]? = some c.term) (hj : terms[j]? = some t) :
    Ends terms i j ↔ depth = 0 ∧
      (t.kind = .closing ∨ ∃ next ∈ t.operator?, next.precedence ≤ c.op.precedence) := by
  simp [Ends, h.balanced_iff, hij, hi, hj, c.writes]

end OpenSince

end Reckoner
