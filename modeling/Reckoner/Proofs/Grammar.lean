import Reckoner.Proofs.Nesting
import Reckoner.Proofs.YardMoves
import Reckoner.Scan

/-!
# The grammar of terms

The infix grammar has one level for each group of operators that bind equally tightly. At each
level operators group from the left, and an operand is a number or a parenthesised expression. A
derivation carries its syntax tree.

A derived sequence is valid, its postfix order is the post-order of its tree, and the value of its
tree is what it amounts to. The yard is followed from an arbitrary state: below the terms that a
derivation leaves in the yard may lie any held terms that bind less tightly than its level.
-/

namespace Reckoner

/-- The operators of a level of the grammar, the loosest level first. -/
def operatorsAt : Nat → List Operator
  | 0 => [.add, .sub]
  | 1 => [.mod]
  | 2 => [.mul, .div]
  | 3 => [.pow]
  | _ => []

/-- The level of an operator is its precedence. -/
theorem mem_operatorsAt_iff {level : Nat} {op : Operator} :
    op ∈ operatorsAt level ↔ op.precedence = level := by
  match level with
  | 0 | 1 | 2 | 3 => cases op <;> decide
  | level + 4 => cases op <;> simp [operatorsAt, Operator.precedence]

/-- Sequences of terms derived at a level of the grammar, with their syntax trees. Level four holds
the operands of all operators. -/
inductive Derives : Nat → List Term → Tree → Prop
  | number (x : Operand) : Derives 4 [x.term] (.leaf x)
  | group {opening closing : Term} {terms : List Term} {e : Tree}
      (hopening : opening.kind = .opening) (hclosing : closing.kind = .closing) :
      Derives 0 terms e → Derives 4 (opening :: (terms ++ [closing])) e
  | tighter {level : Nat} {terms : List Term} {e : Tree} :
      Derives (level + 1) terms e → Derives level terms e
  | binary {level : Nat} {first second : List Term} {left right : Tree} (c : Connective)
      (hop : c.op ∈ operatorsAt level) :
      Derives level first left → Derives (level + 1) second right →
      Derives level (first ++ c.term :: second) (.node c left right)

/-- What is derived at a level is derived at every looser one. -/
theorem Derives.loosen {level : Nat} {terms : List Term} {e : Tree} (steps : Nat)
    (h : Derives (level + steps) terms e) : Derives level terms e := by
  induction steps with
  | zero => exact h
  | succ steps ih => exact ih (.tighter h)

/-- A derived sequence raises no objection, wherever it stands and whatever follows. -/
theorem objectionFrom_derives {level : Nat} {terms : List Term} {e : Tree}
    (h : Derives level terms e) (strict : Bool) {depth : Int} (hdepth : 0 ≤ depth)
    (rest : List Term) :
    objectionFrom strict depth (terms ++ rest) = objectionFrom strict depth rest := by
  induction h generalizing depth rest with
  | number x => exact objectionFrom_operand strict depth rest x
  | group hopening hclosing _ ih =>
    rw [List.cons_append, objectionFrom_opening strict depth _ hopening, List.append_assoc,
      ih (by omega), List.singleton_append, objectionFrom_closing strict _ _ hclosing (fun _ => by omega)]
    congr 1
    omega
  | tighter _ ih => exact ih hdepth rest
  | binary c _ _ _ ihl ihr =>
    rw [List.append_assoc, ihl hdepth, List.cons_append, objectionFrom_connective, ihr hdepth]

/-- Whether the latest held term, if it is an operator, binds less tightly than a level. -/
def LooserThan (level : Nat) (held : List Term) : Prop :=
  ∀ t ∈ held.head?, ∀ op, t.operator? = some op → op.precedence < level

/-- Nothing held binds less tightly than any level. -/
theorem looserThan_nil (level : Nat) : LooserThan level [] := by
  intro t ht
  cases ht

/-- An opening parenthesis shields what is held below it from every level. -/
theorem looserThan_opening {opening : Term} (hopening : opening.kind = .opening) (level : Nat)
    (held : List Term) : LooserThan level (opening :: held) := by
  intro t ht op hop
  cases ht
  have hkind := (Term.operator?_eq_some_iff.mp hop).1
  rw [hopening] at hkind
  cases hkind

/-- An operator binds less tightly than the level of its right operand. -/
theorem looserThan_connective {level : Nat} {c : Connective} (hop : c.op ∈ operatorsAt level)
    (held : List Term) : LooserThan (level + 1) (c.term :: held) := by
  intro t ht op hwrites
  have hlevel := mem_operatorsAt_iff.mp hop
  cases ht
  rw [c.writes] at hwrites
  cases hwrites
  omega

/-- What binds less tightly than a level binds less tightly than the next one. -/
theorem LooserThan.succ {level : Nat} {held : List Term} (h : LooserThan level held) :
    LooserThan (level + 1) held := by
  intro t ht op hop
  exact Nat.lt_succ_of_lt (h t ht op hop)

/-- What binds less tightly than a level does not yield to its operators. -/
theorem yields_eq_false_of_looserThan {level : Nat} {held : List Term} {op : Operator}
    (hlooser : LooserThan level held) (hop : op ∈ operatorsAt level) :
    ∀ t ∈ held.head?, Yard.yields op t = false := by
  intro t ht
  unfold Yard.yields
  split
  · next top htop =>
    have hlt := hlooser t ht top htop
    have heq := mem_operatorsAt_iff.mp hop
    exact decide_eq_false (by omega)
  · rfl

/-- The yard takes in the terms of a tree: some are gone, and the pending ones are held on top of
what was held before. Together they are in the order of the tree, and all pending terms are
operators of the level or a tighter one. -/
structure Arranged (level : Nat) (terms : List Term) (e : Tree)
    (held gone pending gone' : List Term) : Prop where
  run : terms.foldlM Yard.step ⟨held, gone⟩ = .ok ⟨pending ++ held, gone'⟩
  order : gone'.reverse ++ pending = gone.reverse ++ e.postorder
  tight : ∀ t ∈ pending, ∃ c : Connective, c.term = t ∧ level ≤ c.op.precedence

namespace Arranged

variable {level : Nat} {terms first second held gone gone' pending pending' gone'' : List Term}
  {e left right : Tree}

/-- A number is gone at once. -/
theorem number (x : Operand) (held gone : List Term) :
    Arranged 4 [x.term] (.leaf x) held gone [] (x.term :: gone) where
  run := foldlM_cons_of_ok (Yard.Move.number x.kind_term).step_eq []
  order := by rw [List.reverse_cons, List.append_nil, Tree.postorder]
  tight t ht := absurd ht List.not_mem_nil

/-- No opening parenthesis is pending. -/
theorem kind_ne_opening (h : Arranged level terms e held gone pending gone') :
    ∀ t ∈ pending, t.kind ≠ .opening := by
  intro t ht
  obtain ⟨c, rfl, _⟩ := h.tight t ht
  simp

/-- A closing parenthesis lets everything go that its group has left pending. -/
theorem group {opening closing : Term} (hopening : opening.kind = .opening)
    (hclosing : closing.kind = .closing)
    (h : Arranged 0 terms e (opening :: held) gone pending gone') :
    Arranged 4 (opening :: (terms ++ [closing])) e held gone [] (pending.reverse ++ gone') where
  run := by
    have hopen : Yard.step ⟨held, gone⟩ opening = .ok ⟨opening :: held, gone⟩ :=
      (Yard.Move.opening hopening).step_eq
    have hclose : Yard.step ⟨pending ++ opening :: held, gone'⟩ closing =
        .ok ⟨held, pending.reverse ++ gone'⟩ :=
      (Yard.Move.closing hclosing h.kind_ne_opening hopening).step_eq
    rw [foldlM_cons_of_ok hopen, foldlM_append_of_ok h.run]
    exact foldlM_cons_of_ok hclose []
  order := by rw [List.reverse_append, List.reverse_reverse, List.append_nil, h.order]
  tight t ht := absurd ht List.not_mem_nil

/-- What is pending at a level may be pending at a looser one. -/
theorem tighter (h : Arranged (level + 1) terms e held gone pending gone') :
    Arranged level terms e held gone pending gone' where
  run := h.run
  order := h.order
  tight t ht := by
    obtain ⟨c, hc, hlevel⟩ := h.tight t ht
    exact ⟨c, hc, by omega⟩

/-- An operator lets go exactly what its left operand has left pending, and it is pending itself
below what its right operand leaves. -/
theorem binary {c : Connective} (hop : c.op ∈ operatorsAt level) (hlooser : LooserThan level held)
    (hleft : Arranged level first left held gone pending gone')
    (hright : Arranged (level + 1) second right (c.term :: held) (pending.reverse ++ gone')
      pending' gone'') :
    Arranged level (first ++ c.term :: second) (.node c left right) held gone
      (pending' ++ [c.term]) gone'' where
  run := by
    have hyield : ∀ t ∈ pending, Yard.yields c.op t = true := by
      intro t ht
      obtain ⟨d, rfl, hd⟩ := hleft.tight t ht
      rw [Yard.yields_connective, mem_operatorsAt_iff.mp hop]
      exact decide_eq_true hd
    have hstep : Yard.step ⟨pending ++ held, gone'⟩ c.term =
        .ok ⟨c.term :: held, pending.reverse ++ gone'⟩ :=
      (Yard.Move.operator c hyield (yields_eq_false_of_looserThan hlooser hop)).step_eq
    rw [foldlM_append_of_ok hleft.run, foldlM_cons_of_ok hstep, hright.run, List.append_assoc,
      List.singleton_append]
  order := by
    calc gone''.reverse ++ (pending' ++ [c.term])
        = gone''.reverse ++ pending' ++ [c.term] := (List.append_assoc _ _ _).symm
      _ = gone'.reverse ++ pending ++ right.postorder ++ [c.term] := by
          rw [hright.order, List.reverse_append, List.reverse_reverse]
      _ = gone.reverse ++ (Tree.node c left right).postorder := by
          rw [hleft.order, Tree.postorder]
          simp only [List.append_assoc]
  tight t ht := by
    rcases List.mem_append.mp ht with htail | hlast
    · obtain ⟨d, hd, hlt⟩ := hright.tight t htail
      exact ⟨d, hd, by omega⟩
    · exact ⟨c, (List.mem_singleton.mp hlast).symm, Nat.le_of_eq (mem_operatorsAt_iff.mp hop).symm⟩

end Arranged

/-- The yard takes in a derived sequence in the order of its tree, whatever is held and gone
before, as long as the latest held operator binds less tightly than the level. -/
theorem exists_arranged_of_derives {level : Nat} {terms : List Term} {e : Tree}
    (h : Derives level terms e) (held gone : List Term) (hlooser : LooserThan level held) :
    ∃ pending gone', Arranged level terms e held gone pending gone' := by
  induction h generalizing held gone with
  | number x => exact ⟨[], x.term :: gone, .number x held gone⟩
  | @group opening _ _ _ hopening hclosing _ ih =>
    obtain ⟨_, _, h⟩ := ih (opening :: held) gone (looserThan_opening hopening 0 held)
    exact ⟨_, _, h.group hopening hclosing⟩
  | tighter _ ih =>
    obtain ⟨_, _, h⟩ := ih held gone hlooser.succ
    exact ⟨_, _, h.tighter⟩
  | binary c hop _ _ ihl ihr =>
    obtain ⟨pending, gone', hleft⟩ := ihl held gone hlooser
    obtain ⟨_, _, hright⟩ :=
      ihr (c.term :: held) (pending.reverse ++ gone') (looserThan_connective hop held)
    exact ⟨_, _, .binary hop hlooser hleft hright⟩

/-- The postfix order of a derived sequence is the post-order of its tree. -/
theorem toPostfix_derives {level : Nat} {terms : List Term} {e : Tree}
    (h : Derives level terms e) : toPostfix terms = .ok e.postorder := by
  obtain ⟨pending, gone, harranged⟩ := exists_arranged_of_derives h [] [] (looserThan_nil level)
  have hrun := harranged.run
  have horder := harranged.order
  rw [List.append_nil] at hrun
  refine toPostfix_eq_ok_iff.mpr
    ⟨_, hrun, Yard.finish_eq_ok_iff.mpr ⟨harranged.kind_ne_opening, ?_⟩⟩
  rw [horder]
  rfl

/-- A derived sequence is valid. -/
theorem objection?_derives {level : Nat} {terms : List Term} {e : Tree}
    (h : Derives level terms e) (strict : Bool) : objection? strict terms = none := by
  have hrest := objectionFrom_derives h strict (Int.le_refl 0) []
  rw [List.append_nil] at hrest
  exact hrest

/-- A derived sequence is valid under both nesting rules, its postfix order is the post-order of
its syntax tree, and that order is answered by the value of the tree alone, whether or not
leftovers may be multiplied. -/
theorem derives_ordered_and_reduced {terms : List Term} {e : Tree} (h : Derives 0 terms e)
    (strict allowPartial : Bool) :
    objection? strict terms = none ∧ toPostfix terms = .ok e.postorder ∧
      reduce allowPartial e.postorder = .ok (.single e.value) :=
  ⟨objection?_derives h strict, toPostfix_derives h, reduce_postorder allowPartial e⟩

/-- In `9-2*(7-4)%5` the operators of three levels and a group bind as `9-((2*(7-4))%5)`, which
is 8. -/
theorem derives_ordered_and_reduced_eight :
    ∃ e : Tree, Derives 0 (scan "9-2*(7-4)%5") e ∧
      objection? true (scan "9-2*(7-4)%5") = none ∧
      toPostfix (scan "9-2*(7-4)%5") = .ok e.postorder ∧
      reduce false e.postorder = .ok (.single e.value) ∧ e.value = .ofDecimal false 8 0 := by
  have nine := Derives.number ⟨.number "9", .ofDecimal false 9 0, by decide +kernel⟩
  have two := Derives.number ⟨.number "2", .ofDecimal false 2 0, by decide +kernel⟩
  have seven := Derives.number ⟨.number "7", .ofDecimal false 7 0, by decide +kernel⟩
  have four := Derives.number ⟨.number "4", .ofDecimal false 4 0, by decide +kernel⟩
  have five := Derives.number ⟨.number "5", .ofDecimal false 5 0, by decide +kernel⟩
  have hdifference := Derives.binary (.of .sub) (by decide) (.loosen 4 seven) (.loosen 3 four)
  have hgroup : Derives 4 (.paren "(" :: (_ ++ [.paren ")"])) _ := .group rfl rfl hdifference
  have hproduct := Derives.binary (.of .mul) (by decide) (.loosen 2 two) (.loosen 1 hgroup)
  have hremainder := Derives.binary (.of .mod) (by decide) (.tighter hproduct) (.loosen 2 five)
  have hderives := Derives.binary (.of .sub) (by decide) (.loosen 4 nine) hremainder
  have hscan : scan "9-2*(7-4)%5" = [.number "9", .operator "-", .number "2", .operator "*",
      .paren "(", .number "7", .operator "-", .number "4", .paren ")", .operator "%",
      .number "5"] := by decide +kernel
  rw [hscan]
  have h := derives_ordered_and_reduced hderives true false
  exact ⟨_, hderives, h.1, h.2.1, h.2.2, by decide +kernel⟩

end Reckoner
