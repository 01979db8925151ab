import Reckoner.Proofs.Faults
import Reckoner.Proofs.Outcome
import Reckoner.Proofs.Scanning
import Reckoner.Proofs.Spelling

/-!
# Readings of spelled expressions

A sign right after a closing parenthesis does not end an operand when a text is scanned: it starts
the next number, or stands for minus one. A spelled text without such a sign is read as the grammar
says and has the value of its tree. With one, however many there are and wherever they stand, the
operators are too few for the numbers; so there is no single value left, and the text is rejected
unless leftovers may be multiplied.
-/

namespace Reckoner

/-- What scanning a spelled text finds. Unless a run was pending before the text or a sign stands
after a group in it, the terms are derived at the same level with the same tree. In any case the
numbers outnumber the operators, by two at least if a sign stands after a group. -/
structure Reading (level : Nat) (text : List Char) (e : Tree) (run : List Char)
    (terms : List Term) : Prop where
  derives : run = [] → NoSignAfterGroup text → Derives level terms e
  surplus : operatorCount terms + 1 ≤ numberCount terms
  surplus_of_sign : ¬ NoSignAfterGroup text → operatorCount terms + 2 ≤ numberCount terms

namespace Reading

/-- A literal is read as one number, together with a pending run. -/
theorem literal (l : Literal) (sign : Sign) (run : List Char) :
    Reading 4 (sign.chars ++ l.chars) (.leaf (l.operand sign)) run
      [.number (.ofList (run.reverse ++ (sign.chars ++ l.chars)))] where
  derives hrun _ := by
    subst hrun
    exact .number (l.operand sign)
  surplus := by simp [Term.number]
  surplus_of_sign hsign := absurd (noSignAfterGroup_literal l sign) hsign

/-- A group is read as its content between parentheses; a pending run is a number before it. -/
theorem group {text : List Char} {e : Tree} {terms : List Term} (h : Reading 0 text e [] terms)
    (run : List Char) :
    Reading 4 ('(' :: (text ++ [')'])) e run
      (Term.ofRun run.reverse ++ .paren "(" :: (terms ++ [.paren ")"])) := by
  have hrun := operatorCount_ofRun run.reverse
  have hsurplus := h.surplus
  have hnumber : numberCount (Term.ofRun run.reverse ++ .paren "(" :: (terms ++ [.paren ")"])) =
      numberCount (Term.ofRun run.reverse) + numberCount terms := by
    simp [Term.paren]
  have hoperator :
      operatorCount (Term.ofRun run.reverse ++ .paren "(" :: (terms ++ [.paren ")"])) =
        operatorCount terms := by
    simp [Term.paren, hrun]
  refine ⟨fun hempty hsign => ?_, by omega, fun hsign => ?_⟩
  · subst hempty
    exact .group rfl rfl (h.derives rfl (noSignAfterGroup_group.mp hsign))
  · have := h.surplus_of_sign fun hinner => hsign (noSignAfterGroup_group.mpr hinner)
    omega

/-- A reading at a level is a reading at a looser one. -/
theorem tighter {level : Nat} {text : List Char} {e : Tree} {run : List Char} {terms : List Term}
    (h : Reading (level + 1) text e run terms) : Reading level text e run terms where
  derives hrun hsign := .tighter (h.derives hrun hsign)
  surplus := h.surplus
  surplus_of_sign := h.surplus_of_sign

section Joined

variable {level : Nat} {first second : List Char} {left right : Tree} {run : List Char}
  {terms terms' : List Term} {op : Operator}

/-- Where the operator is read as one, the readings of both operands are joined by it. -/
theorem binary (hleft : Reading level first left run terms)
    (hspelled : Spelled level first left) (hop : op ∈ operatorsAt level)
    (hright : Reading (level + 1) second right [] terms')
    (hend : isSign op.char = true → endsNumeric first = true) :
    Reading level (first ++ op.char :: second) (.node (.of op) left right) run
      (terms ++ (Connective.of op).term :: terms') := by
  have hsurplus := hleft.surplus
  have hsurplus' := hright.surplus
  have hiff := noSignAfterGroup_append_operator hspelled op second
  refine ⟨fun hrun hsign => ?_, ?_, fun hsign => ?_⟩
  · obtain ⟨hfirst, _, hsecond⟩ := hiff.mp hsign
    exact .binary (.of op) hop (hleft.derives hrun hfirst) (hright.derives rfl hsecond)
  · simp
    omega
  · simp
    by_cases hfirst : NoSignAfterGroup first
    · have := hright.surplus_of_sign fun hsecond => hsign (hiff.mpr ⟨hfirst, hend, hsecond⟩)
      omega
    · have := hleft.surplus_of_sign hfirst
      omega

/-- Where a sign after a group is read as the start of a number, the operator is lost. -/
theorem misread (hleft : Reading level first left run terms)
    (hspelled : Spelled level first left)
    (hright : Reading (level + 1) second right [op.char] terms') (hsign : isSign op.char = true)
    (hend : endsNumeric first = false) :
    Reading level (first ++ op.char :: second) (.node (.of op) left right) run
      (terms ++ terms') := by
  have hsurplus := hleft.surplus
  have hsurplus' := hright.surplus
  refine ⟨fun _ hapart => ?_, ?_, fun _ => ?_⟩
  · have hnumeric := ((noSignAfterGroup_append_operator hspelled op second).mp hapart).2.1 hsign
    rw [hend] at hnumeric
    cases hnumeric
  · simp
    omega
  · simp
    omega

end Joined

end Reading

/-- Scanning a text after a pending run finds the terms, and goes on with an empty run after it,
unless what follows joins the last number of the text. -/
def Scans (run text : List Char) (terms : List Term) : Prop :=
  ∀ rest : List Char, (∀ c ∈ rest.head?, isNumeric c = false) →
    scanFrom run false (text ++ rest) = terms ++ scanFrom [] (endsNumeric text) rest

namespace Scans

variable {run text first second : List Char} {terms terms' : List Term} {op : Operator}

/-- A pending run joins a literal, and together they are one number. -/
theorem literal (l : Literal) (sign : Sign) (run : List Char) :
    Scans run (sign.chars ++ l.chars)
      [.number (.ofList (run.reverse ++ (sign.chars ++ l.chars)))] := by
  intro rest hrest
  obtain ⟨last, hlast, hnumeric⟩ := exists_getLast?_literal l sign
  have hend : endsNumeric (sign.chars ++ l.chars) = true := by
    rw [endsNumeric, hlast, Option.any_some, hnumeric]
  have hsign : scanFrom run false (sign.chars ++ l.chars ++ rest) =
      scanFrom (sign.chars.reverse ++ run) false (l.chars ++ rest) := by
    cases sign with
    | none => rfl
    | plus => exact scanFrom_sign rfl run (l.chars ++ rest)
    | minus => exact scanFrom_sign rfl run (l.chars ++ rest)
  obtain ⟨c, tail, hchars, hc⟩ := l.exists_chars_eq_cons
  have hrun : c ∈ (l.chars.reverse ++ (sign.chars.reverse ++ run)).reverse := by simp [hchars]
  rw [hsign, scanFrom_numerics l.isNumeric_of_mem l.chars_ne_nil, scanFrom_endRun hrest,
    Term.ofRun_of_isNumeric hrun hc, hend]
  simp

/-- The parentheses of a group are terms of their own; the first one ends the pending run. -/
theorem group (h : Scans [] text terms) (run : List Char) :
    Scans run ('(' :: (text ++ [')']))
      (Term.ofRun run.reverse ++ .paren "(" :: (terms ++ [.paren ")"])) := by
  intro rest _
  have hclosing : ∀ c ∈ (')' :: rest).head?, isNumeric c = false := by
    intro c hc
    cases hc
    decide
  have hend : endsNumeric ('(' :: (text ++ [')'])) = false := by
    rw [endsNumeric, getLast?_group]
    decide
  rw [List.cons_append, scanFrom_mark (by decide) (by decide), List.append_assoc,
    List.singleton_append, h _ hclosing,
    scanFrom_mark (by decide) (fun hsign => absurd hsign (by decide)), hend, ofChar_opening,
    ofChar_closing]
  simp [Term.ofRun]

/-- The scan of two texts with an operator between them goes on with the operator. -/
theorem before_operator (h : Scans run first terms) (op : Operator) (second rest : List Char) :
    scanFrom run false (first ++ op.char :: second ++ rest) =
      terms ++ scanFrom [] (endsNumeric first) (op.char :: (second ++ rest)) := by
  have hoperator : ∀ c ∈ (op.char :: (second ++ rest)).head?, isNumeric c = false := by
    intro c hc
    cases hc
    exact op.isNumeric_char
  rw [List.append_assoc, List.cons_append, h _ hoperator]

/-- An operator that is no sign after a group is a term between the terms of its operands. -/
theorem binary (hleft : Scans run first terms) (hright : Scans [] second terms')
    (hsecond : endsNumeric (first ++ op.char :: second) = endsNumeric second)
    (hend : isSign op.char = true → endsNumeric first = true) :
    Scans run (first ++ op.char :: second) (terms ++ (Connective.of op).term :: terms') := by
  intro rest hrest
  rw [hleft.before_operator, scanFrom_mark op.isNumeric_char hend, op.ofChar_char,
    hright rest hrest, hsecond]
  simp [Term.ofRun]

/-- A sign after a group is the pending run of the right operand. -/
theorem misread (hleft : Scans run first terms) (hright : Scans [op.char] second terms')
    (hsecond : endsNumeric (first ++ op.char :: second) = endsNumeric second)
    (hsign : isSign op.char = true) (hend : endsNumeric first = false) :
    Scans run (first ++ op.char :: second) (terms ++ terms') := by
  intro rest hrest
  rw [hleft.before_operator, hend, scanFrom_sign hsign, hright rest hrest, hsecond,
    List.append_assoc]

end Scans

/-- Scanning a spelled text, whatever run is pending before it, finds a reading of it. -/
theorem exists_reading {level : Nat} {text : List Char} {e : Tree} (h : Spelled level text e)
    (run : List Char) : ∃ terms, Scans run text terms ∧ Reading level text e run terms := by
  induction h generalizing run with
  | literal l sign => exact ⟨_, .literal l sign run, .literal l sign run⟩
  | group _ ih =>
    obtain ⟨_, hscans, hreading⟩ := ih []
    exact ⟨_, hscans.group run, hreading.group run⟩
  | tighter _ ih =>
    obtain ⟨terms, hscans, hreading⟩ := ih run
    exact ⟨terms, hscans, hreading.tighter⟩
  | @binary _ first _ _ _ op hop hfirst hsecond ihl ihr =>
    obtain ⟨_, hscans, hleft⟩ := ihl run
    have hlast := endsNumeric_append_operator first op hsecond
    by_cases hmisread : isSign op.char = true ∧ endsNumeric first = false
    · obtain ⟨_, hscans', hright⟩ := ihr [op.char]
      exact ⟨_, hscans.misread hscans' hlast hmisread.1 hmisread.2,
        hleft.misread hfirst hright hmisread.1 hmisread.2⟩
    · have hend : isSign op.char = true → endsNumeric first = true := fun hsign =>
        Bool.not_eq_false _ |>.mp fun hfalse => hmisread ⟨hsign, hfalse⟩
      obtain ⟨_, hscans', hright⟩ := ihr []
      exact ⟨_, hscans.binary hscans' hlast hend, hleft.binary hfirst hop hright hend⟩

/-- The scan of a spelled text is a reading of it. -/
theorem reading_scan {text : String} {e : Tree} (h : Spelled 0 text.toList e) :
    Reading 0 text.toList e [] (scan text) := by
  obtain ⟨terms, hscans, hreading⟩ := exists_reading h []
  have hend (after : Bool) : scanFrom [] after [] = [] := rfl
  have hscan := hscans [] (by simp)
  rw [List.append_nil, hend, List.append_nil] at hscan
  rwa [scan, hscan]

/-- A row of trees in postfix order has at least as many trees as numbers in excess of the
operators. -/
theorem le_length_of_surplus {terms : List Term} {trees : List Tree} {surplus : Nat}
    (h : toPostfix terms = .ok (trees.flatMap Tree.postorder))
    (hsurplus : operatorCount terms + surplus ≤ numberCount terms) : surplus ≤ trees.length := by
  have hforest := numberCount_forest trees
  rw [numberCount_of_toPostfix h, operatorCount_of_toPostfix h] at hforest
  omega

/-- The text `1.5*(3--1)%5` is spelled with the value one. -/
theorem exists_spelled_remainder :
    ∃ e, Spelled 0 "1.5*(3--1)%5".toList e ∧ e.value = .ofDecimal false 1 0 := by
  have factor : Spelled 4 ['1', '.', '5'] _ :=
    .literal ⟨['1'], some ['5'], by simp, by simp⟩ .none
  have three : Spelled 4 ['3'] _ := .literal ⟨['3'], none, by simp, by simp⟩ .none
  have minusOne : Spelled 4 ['-', '1'] _ := .literal ⟨['1'], none, by simp, by simp⟩ .minus
  have five : Spelled 4 ['5'] _ := .literal ⟨['5'], none, by simp, by simp⟩ .none
  have hdifference : Spelled 0 ['3', '-', '-', '1'] _ :=
    .binary .sub (by decide) (three.loosen 4) (minusOne.loosen 3)
  have hproduct : Spelled 2 ['1', '.', '5', '*', '(', '3', '-', '-', '1', ')'] _ :=
    .binary .mul (by decide) (factor.loosen 2) (hdifference.group.loosen 1)
  have hremainder : Spelled 1 "1.5*(3--1)%5".toList _ :=
    .binary .mod (by decide) (hproduct.loosen 1) (five.loosen 2)
  exact ⟨_, hremainder.tighter, by decide +kernel⟩

/-- The text `(1)-2` is spelled with the value minus one. -/
theorem exists_spelled_difference :
    ∃ e, Spelled 0 "(1)-2".toList e ∧ e.value = .ofDecimal true 1 0 := by
  have one : Spelled 4 ['1'] _ := .literal ⟨['1'], none, by simp, by simp⟩ .none
  have two : Spelled 4 ['2'] _ := .literal ⟨['2'], none, by simp, by simp⟩ .none
  have hgroup : Spelled 4 ['(', '1', ')'] _ := .group (one.loosen 4)
  have hdifference : Spelled 0 "(1)-2".toList _ :=
    .binary .sub (by decide) (hgroup.loosen 4) (two.loosen 3)
  exact ⟨_, hdifference, by decide +kernel⟩

/-- Leftovers not allowed, a spelled text without a sign after a group has the value of its tree,
and every other spelled text is rejected as invalid or malformed; no text has another value. -/
theorem evaluate_strictly_spelled {text : String} {e : Tree} (h : Spelled 0 text.toList e)
    (strict : Bool) :
    (NoSignAfterGroup text.toList →
        (evaluate ⟨false, strict⟩ text).result = .ok e.value) ∧
      (¬ NoSignAfterGroup text.toList →
        ∃ r, (evaluate ⟨false, strict⟩ text).result = .error r ∧
          (r.kind = .invalid ∨ r.kind = .malformed)) := by
  have hreading := reading_scan h
  refine ⟨fun hsign => evaluate_of_derives (hreading.derives rfl hsign) _, fun hsign => ?_⟩
  rcases evaluate_ok_or_rejected ⟨false, strict⟩ text with ⟨value, hvalue⟩ | hrejected
  · obtain ⟨_, other, horder, _⟩ := evaluate_strictly_eq_ok_iff.mp hvalue
    have hforest : toPostfix (scan text) = .ok ([other].flatMap Tree.postorder) := by
      simpa using horder
    have := le_length_of_surplus hforest (hreading.surplus_of_sign hsign)
    simp at this
  · exact hrejected

/-- The text `1.5*(3--1)%5` has its value one, and `(1)-2` is rejected. -/
theorem evaluate_strictly_spelled_remainder :
    (evaluate ⟨false, true⟩ "1.5*(3--1)%5").result = .ok (.ofDecimal false 1 0) ∧
      ∃ r, (evaluate ⟨false, true⟩ "(1)-2").result = .error r ∧
        (r.kind = .invalid ∨ r.kind = .malformed) := by
  obtain ⟨e, hspelled, hvalue⟩ := exists_spelled_remainder
  obtain ⟨_, hspelled', _⟩ := exists_spelled_difference
  rw [← hvalue]
  exact ⟨(evaluate_strictly_spelled hspelled true).1 (by decide),
    (evaluate_strictly_spelled hspelled' true).2 (by decide)⟩

/-- Leftovers allowed, a spelled text without a sign after a group has the value of its tree. Any
other spelled text is rejected as invalid or malformed, or it is read as two trees or more and has
the product of their values. -/
theorem evaluate_spelled {text : String} {e : Tree} (h : Spelled 0 text.toList e)
    (strict : Bool) :
    (NoSignAfterGroup text.toList →
        (evaluate ⟨true, strict⟩ text).result = .ok e.value) ∧
      (¬ NoSignAfterGroup text.toList →
        (∃ r, (evaluate ⟨true, strict⟩ text).result = .error r ∧
          (r.kind = .invalid ∨ r.kind = .malformed)) ∨
        ∃ trees : List Tree, 2 ≤ trees.length ∧
          toPostfix (scan text) = .ok (trees.flatMap Tree.postorder) ∧
          (evaluate ⟨true, strict⟩ text).result =
            .ok (Binary64.product (trees.map Tree.value))) := by
  have hreading := reading_scan h
  refine ⟨fun hsign => evaluate_of_derives (hreading.derives rfl hsign) _, fun hsign => ?_⟩
  rcases evaluate_ok_or_rejected ⟨true, strict⟩ text with ⟨value, hvalue⟩ | hrejected
  · obtain ⟨_, trees, answer, horder, hsettle, rfl⟩ := evaluate_eq_ok_iff.mp hvalue
    have hlength := le_length_of_surplus horder (hreading.surplus_of_sign hsign)
    refine .inr ⟨trees, hlength, horder, ?_⟩
    rcases settle_true_eq_ok hsettle with ⟨single, hsingle, _⟩ | ⟨_, rfl⟩
    · rw [← List.length_map Tree.value, hsingle] at hlength
      simp at hlength
    · exact hvalue
  · exact .inl hrejected

/-- The text `1.5*(3--1)%5` has its value one, and `(1)-2`, which is not rejected, is read as two
trees or more. -/
theorem evaluate_spelled_remainder :
    (evaluate ⟨true, true⟩ "1.5*(3--1)%5").result = .ok (.ofDecimal false 1 0) ∧
      ∃ trees : List Tree, 2 ≤ trees.length ∧
        toPostfix (scan "(1)-2") = .ok (trees.flatMap Tree.postorder) ∧
        (evaluate ⟨true, true⟩ "(1)-2").result =
          .ok (Binary64.product (trees.map Tree.value)) := by
  obtain ⟨e, hspelled, hvalue⟩ := exists_spelled_remainder
  obtain ⟨_, hspelled', _⟩ := exists_spelled_difference
  have hsome : (evaluate ⟨true, true⟩ "(1)-2").result.toOption ≠ none := by decide +kernel
  rw [← hvalue]
  refine ⟨(evaluate_spelled hspelled true).1 (by decide), ?_⟩
  rcases (evaluate_spelled hspelled' true).2 (by decide) with ⟨r, hrejected, _⟩ | htrees
  · rw [hrejected] at hsome
    exact absurd rfl hsome
  · exact htrees

/-- Not every spelled text has the value of its tree: in `(1)-2` the sign is read as that of the
number two, and the product with the group before it is minus two. -/
theorem evaluate_ne_value_of_spelled :
    ∃ e, Spelled 0 "(1)-2".toList e ∧ e.value = .ofDecimal true 1 0 ∧
      (evaluate ⟨true, true⟩ "(1)-2").result = .ok (.ofDecimal true 2 0) ∧
      (evaluate ⟨true, true⟩ "(1)-2").result ≠ .ok e.value := by
  obtain ⟨e, hspelled, hvalue⟩ := exists_spelled_difference
  have hresult : (evaluate ⟨true, true⟩ "(1)-2").result = .ok (.ofDecimal true 2 0) :=
    eq_ok_of_toOption (by decide +kernel)
  refine ⟨e, hspelled, hvalue, hresult, ?_⟩
  rw [hresult, hvalue]
  intro h
  have hdiffer : Binary64.ofDecimal true 2 0 ≠ .ofDecimal true 1 0 := by decide +kernel
  exact hdiffer (Except.ok.inj h)

end Reckoner
