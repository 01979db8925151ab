import Reckoner.Journal

/-!
# Reduction

A sequence of terms in postfix order is worked off on a stack of values: a number is put on top,
an operator replaces the two topmost values by one. One value left is the answer. Several values
left are multiplied if the caller allows it, from the bottom of the stack to its top.
-/

namespace Reckoner

/-- Work off the next term; the stack is given from its top. -/
def reduceStep (stack : List Binary64) (t : Term) : Except Fault (List Binary64) :=
  match t.kind with
  | .number =>
    match t.value with
    | some value => .ok (value :: stack)
    | none => .error (.unparsableNumber t.text)
  | .operator =>
    match t.operator?, stack with
    | none, _ => .error (.unknownOperator t.text)
    | some op, second :: first :: rest => .ok (op.apply first second :: rest)
    | some _, _ => .error (.missingOperands t.text)
  | _ => .error (.strayPostfixTerm t.text)

/-- The values that a sequence leaves, from the bottom of the stack. -/
def leftovers (terms : List Term) : Except Fault (List Binary64) := do
  let stack ← terms.foldlM reduceStep []
  return stack.reverse

/-- What a sequence of terms amounts to: a single value, or values to be multiplied. -/
inductive Answer where
  | single (value : Binary64)
  | product (factors : List Binary64)
deriving DecidableEq

namespace Answer

/-- The value of an answer. -/
def value : Answer → Binary64
  | .single value => value
  | .product factors => Binary64.product factors

/-- The event that reports how the given sequence was answered; a single value needs none. -/
def events (terms : List Term) : Answer → List Event
  | .single _ => []
  | .product factors => [.leftoverProduct factors.length terms]

end Answer

/-- Settle for an answer, given the values left from the bottom of the stack. -/
def settle (allowPartial : Bool) : List Binary64 → Except Fault Answer
  | [] => .error .emptyStack
  | [value] => .ok (.single value)
  | values => if allowPartial then .ok (.product values) else .error (.leftover values.length)

/-- Work off a sequence of terms in postfix order. -/
def reduce (allowPartial : Bool) (terms : List Term) : Except Fault Answer := do
  let values ← leftovers terms
  settle allowPartial values

end Reckoner
