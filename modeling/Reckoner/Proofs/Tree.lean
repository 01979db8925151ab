import Reckoner.Proofs.Attempt
import Reckoner.Reduction

/-!
# Syntax trees and the stack of values

A tree has number terms at its leaves and operator terms at its inner nodes. Working off the
post-order of a tree puts the value of the tree on top of the stack, whatever lies below. The
converse holds too: a sequence that can be worked off is a row of post-orders, and what it leaves
are the values of their trees.

A failure is not described here; a sequence that is no row of post-orders just leaves nothing.
-/

namespace Reckoner

/-- Only a number term stands for an operand. -/
theorem Term.operand?_eq_some_iff {t : Term} {value : Binary64} :
    t.operand? = some value ↔ t.kind = .number ∧ t.value = some value := by
  unfold Term.operand?
  split <;> simp_all

/-- Only an operator term that writes a known symbol stands for an operator. -/
theorem Term.operator?_eq_some_iff {t : Term} {op : Operator} :
    t.operator? = some op ↔ t.kind = .operator ∧ t.text = op.symbol := by
  unfold Term.operator?
  split <;> simp_all [Operator.ofSymbol?_eq_some_iff]

/-- A number term together with its value. -/
structure Operand where
  term : Term
  value : Binary64
  reads : term.operand? = some value

/-- An operator term together with the operator that it writes. -/
structure Connective where
  term : Term
  op : Operator
  writes : term.operator? = some op

/-- An operator written by its own symbol. -/
def Connective.of (op : Operator) : Connective where
  term := .operator op.symbol
  op := op
  writes := Term.operator?_eq_some_iff.mpr ⟨rfl, rfl⟩

@[simp] theorem Operand.kind_term (x : Operand) : x.term.kind = .number :=
  (Term.operand?_eq_some_iff.mp x.reads).1

@[simp] theorem Operand.value_term (x : Operand) : x.term.value = some x.value :=
  (Term.operand?_eq_some_iff.mp x.reads).2

@[simp] theorem Connective.kind_term (c : Connective) : c.term.kind = .operator :=
  (Term.operator?_eq_some_iff.mp c.writes).1

namespace Term

/-- Whether the term is a parenthesis. -/
def isParenthesis (t : Term) : Bool :=
  t.kind = .opening || t.kind = .closing

@[simp] theorem isParenthesis_operand (x : Operand) : x.term.isParenthesis = false := by
  simp [isParenthesis]

@[simp] theorem isParenthesis_connective (c : Connective) : c.term.isParenthesis = false := by
  simp [isParenthesis]

end Term

/-- A syntax tree over terms. -/
inductive Tree where
  | leaf (x : Operand)
  | node (c : Connective) (left right : Tree)

namespace Tree

/-- The terms of a tree, each operator after its two operands. -/
def postorder : Tree → List Term
  | leaf x => [x.term]
  | node c left right => left.postorder ++ right.postorder ++ [c.term]

/-- The value of a tree: an operator applies to the values of its left and right operand. -/
def value : Tree → Binary64
  | leaf x => x.value
  | node c left right => c.op.apply left.value right.value

end Tree

/-- How many terms of a sequence are numbers. -/
def numberCount (terms : List Term) : Nat :=
  terms.countP fun t => t.kind = .number

/-- How many terms of a sequence are operators. -/
def operatorCount (terms : List Term) : Nat :=
  terms.countP fun t => t.kind = .operator

@[simp] theorem numberCount_cons (t : Term) (rest : List Term) :
    numberCount (t :: rest) = numberCount rest + if t.kind = .number then 1 else 0 := by
  simp [numberCount, List.countP_cons]

@[simp] theorem operatorCount_cons (t : Term) (rest : List Term) :
    operatorCount (t :: rest) = operatorCount rest + if t.kind = .operator then 1 else 0 := by
  simp [operatorCount, List.countP_cons]

@[simp] theorem numberCount_nil : numberCount [] = 0 :=
  rfl

@[simp] theorem operatorCount_nil : operatorCount [] = 0 :=
  rfl

@[simp] theorem numberCount_append (first second : List Term) :
    numberCount (first ++ second) = numberCount first + numberCount second :=
  List.countP_append

@[simp] theorem operatorCount_append (first second : List Term) :
    operatorCount (first ++ second) = operatorCount first + operatorCount second :=
  List.countP_append

/-- A tree has one number more than operators. -/
theorem Tree.numberCount_postorder (e : Tree) :
    numberCount e.postorder = operatorCount e.postorder + 1 := by
  induction e with
  | leaf x => simp [Tree.postorder]
  | node c left right ihl ihr =>
    have hnumber : numberCount [c.term] = 0 := by simp
    have hoperator : operatorCount [c.term] = 1 := by simp
    simp only [Tree.postorder, numberCount_append, operatorCount_append]
    omega

/-- In a row of trees the numbers outnumber the operators by the number of trees. -/
theorem numberCount_forest (trees : List Tree) :
    numberCount (trees.flatMap Tree.postorder) =
      operatorCount (trees.flatMap Tree.postorder) + trees.length := by
  induction trees with
  | nil => rfl
  | cons e rest ih =>
    have := e.numberCount_postorder
    simp only [List.flatMap_cons, numberCount_append, operatorCount_append, List.length_cons]
    omega

/-- A number is put on top of the stack. -/
theorem reduceStep_operand (x : Operand) (stack : List Binary64) :
    reduceStep stack x.term = .ok (x.value :: stack) := by
  simp [reduceStep]

/-- An operator replaces the two topmost values; the lower one is its left operand. -/
theorem reduceStep_connective (c : Connective) (first second : Binary64)
    (rest : List Binary64) :
    reduceStep (second :: first :: rest) c.term = .ok (c.op.apply first second :: rest) := by
  simp [reduceStep, c.writes]

/-- A term that can be worked off is a number, or an operator that finds two values. -/
theorem reduceStep_cases {stack next : List Binary64} {t : Term}
    (h : reduceStep stack t = .ok next) :
    (∃ x : Operand, x.term = t ∧ next = x.value :: stack) ∨
      ∃ (c : Connective) (first second : Binary64) (rest : List Binary64),
        c.term = t ∧ stack = second :: first :: rest ∧
          next = c.op.apply first second :: rest := by
  unfold reduceStep at h
  split at h
  · next hkind =>
    split at h
    · next value hvalue =>
      cases h
      exact .inl ⟨⟨t, value, Term.operand?_eq_some_iff.mpr ⟨hkind, hvalue⟩⟩, rfl, rfl⟩
    · cases h
  · split at h
    · cases h
    · next op second first rest hop =>
      cases h
      exact .inr ⟨⟨t, op, hop⟩, first, second, rest, rfl, rfl, rfl⟩
    · cases h
  · cases h

/-- A term that cannot be worked off is a number without a value, neither a number nor an operator, an
operator of no known symbol, or an operator that finds fewer than two values. -/
theorem reduceStep_eq_error {stack : List Binary64} {t : Term} {fault : Fault}
    (h : reduceStep stack t = .error fault) :
    (t.kind = .number ∧ t.value = none ∧ fault = .unparsableNumber t.text) ∨
      (t.kind ≠ .number ∧ t.kind ≠ .operator ∧ fault = .strayPostfixTerm t.text) ∨
      (t.kind = .operator ∧ t.operator? = none ∧ fault = .unknownOperator t.text) ∨
      ∃ op, t.operator? = some op ∧ stack.length < 2 ∧ fault = .missingOperands t.text := by
  unfold reduceStep at h
  split at h
  · next hkind =>
    split at h
    · cases h
    · next hvalue =>
      cases h
      exact .inl ⟨hkind, hvalue, rfl⟩
  · next hkind =>
    split at h
    · next hop =>
      cases h
      exact .inr (.inr (.inl ⟨hkind, hop, rfl⟩))
    · cases h
    · next values _ _ op hop hfew =>
      cases h
      refine .inr (.inr (.inr ⟨op, hop, ?_, rfl⟩))
      match values, hfew with
      | [], _ => simp
      | [_], _ => simp
      | second :: first :: rest, hfew => exact absurd rfl (hfew second first rest)
  · next hnumber hoperator =>
    cases h
    exact .inr (.inl ⟨hnumber, hoperator, rfl⟩)

/-- The post-order of a tree leaves the value of the tree on top of the stack. -/
theorem foldlM_reduceStep_postorder (e : Tree) (stack : List Binary64) :
    e.postorder.foldlM reduceStep stack = .ok (e.value :: stack) := by
  induction e generalizing stack with
  | leaf x => exact foldlM_cons_of_ok (reduceStep_operand x stack) []
  | node c left right ihl ihr =>
    rw [Tree.postorder, List.append_assoc, foldlM_append_of_ok (ihl stack),
      foldlM_append_of_ok (ihr _)]
    exact foldlM_cons_of_ok (reduceStep_connective c left.value right.value stack) []

/-- A row of post-orders leaves the values of its trees, the last one on top. -/
theorem foldlM_reduceStep_forest (trees : List Tree) (stack : List Binary64) :
    (trees.flatMap Tree.postorder).foldlM reduceStep stack =
      .ok ((trees.map Tree.value).reverse ++ stack) := by
  induction trees generalizing stack with
  | nil => rfl
  | cons e rest ih =>
    rw [List.flatMap_cons, foldlM_append_of_ok (foldlM_reduceStep_postorder e stack), ih,
      List.map_cons, List.reverse_cons, List.append_assoc]
    rfl

/-- While a sequence is worked off, the stack holds the values of trees whose post-orders, from
the bottom of the stack, are the terms worked off so far. -/
theorem exists_forest_of_foldlM {terms : List Term} {stack : List Binary64} (grown : List Tree)
    (h : terms.foldlM reduceStep (grown.map Tree.value) = .ok stack) :
    ∃ trees : List Tree, stack = trees.map Tree.value ∧
      trees.reverse.flatMap Tree.postorder = grown.reverse.flatMap Tree.postorder ++ terms := by
  induction terms generalizing grown with
  | nil =>
    cases h
    exact ⟨grown, rfl, (List.append_nil _).symm⟩
  | cons t rest ih =>
    rw [List.foldlM_cons, bind_eq_ok_iff] at h
    obtain ⟨next, hstep, hrest⟩ := h
    rcases reduceStep_cases hstep with ⟨x, rfl, rfl⟩ | ⟨c, first, second, below, rfl, hstack, rfl⟩
    · obtain ⟨trees, hvalues, hterms⟩ := ih (.leaf x :: grown) hrest
      refine ⟨trees, hvalues, ?_⟩
      rw [hterms, List.reverse_cons, List.flatMap_append, List.append_assoc]
      rfl
    · -- the two topmost trees become the operands of a new one
      obtain ⟨right, others, rfl, rfl, hothers⟩ := List.map_eq_cons_iff.mp hstack
      obtain ⟨left, outer, rfl, rfl, rfl⟩ := List.map_eq_cons_iff.mp hothers
      obtain ⟨trees, hvalues, hterms⟩ := ih (.node c left right :: outer) hrest
      refine ⟨trees, hvalues, ?_⟩
      rw [hterms]
      simp [List.flatMap_append, Tree.postorder]

/-- The values left by a sequence are those of the trees whose post-orders it is a row of. -/
theorem leftovers_eq_ok_iff {terms : List Term} {values : List Binary64} :
    leftovers terms = .ok values ↔
      ∃ trees : List Tree, terms = trees.flatMap Tree.postorder ∧
        values = trees.map Tree.value := by
  unfold leftovers
  rw [bind_eq_ok_iff]
  constructor
  · rintro ⟨stack, hstack, hvalues⟩
    obtain ⟨trees, rfl, hterms⟩ := exists_forest_of_foldlM [] hstack
    cases hvalues
    exact ⟨trees.reverse, hterms.symm, List.map_reverse.symm⟩
  · rintro ⟨trees, rfl, rfl⟩
    refine ⟨(trees.map Tree.value).reverse, ?_, ?_⟩
    · rw [foldlM_reduceStep_forest, List.append_nil]
    · rw [List.reverse_reverse]
      rfl

/-- An answer settles for the values of the trees whose post-orders the sequence is a row of. -/
theorem reduce_eq_ok_iff {allowPartial : Bool} {terms : List Term} {answer : Answer} :
    reduce allowPartial terms = .ok answer ↔
      ∃ trees : List Tree, terms = trees.flatMap Tree.postorder ∧
        settle allowPartial (trees.map Tree.value) = .ok answer := by
  unfold reduce
  rw [bind_eq_ok_iff]
  constructor
  · rintro ⟨values, hvalues, hsettle⟩
    obtain ⟨trees, hterms, rfl⟩ := leftovers_eq_ok_iff.mp hvalues
    exact ⟨trees, hterms, hsettle⟩
  · rintro ⟨trees, hterms, hsettle⟩
    exact ⟨trees.map Tree.value, leftovers_eq_ok_iff.mpr ⟨trees, hterms, rfl⟩, hsettle⟩

/-- The answer to a row of post-orders is what the values of its trees are settled for. -/
theorem reduce_forest (allowPartial : Bool) (trees : List Tree) :
    reduce allowPartial (trees.flatMap Tree.postorder) =
      settle allowPartial (trees.map Tree.value) := by
  have hleft : leftovers (trees.flatMap Tree.postorder) = .ok (trees.map Tree.value) :=
    leftovers_eq_ok_iff.mpr ⟨trees, rfl, rfl⟩
  rw [reduce, hleft]
  rfl

/-- The post-order of a single tree is answered by its value, leftovers allowed or not. -/
theorem reduce_postorder (allowPartial : Bool) (e : Tree) :
    reduce allowPartial e.postorder = .ok (.single e.value) :=
  reduce_eq_ok_iff.mpr ⟨[e], by simp, rfl⟩

end Reckoner
