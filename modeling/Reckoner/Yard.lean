import Reckoner.Fault
import Reckoner.Term

/-!
# The shunting yard

Terms in infix order are put into postfix order. Numbers pass straight through. An operator is
held back until an operator that binds no tighter, the end of its group or the end of the
sequence lets it go, so an operator leaves right after its second operand. An opening
parenthesis is held as the boundary of its group and vanishes together with the closing one.
-/

namespace Reckoner

/-- The terms held back, latest first, and the terms let go, latest first. -/
structure Yard where
  held : List Term
  gone : List Term
deriving DecidableEq

namespace Yard

/-- Before the first term. -/
def empty : Yard :=
  ⟨[], []⟩

/-- Whether a held term is let go by an operator: it is one that binds at least as tightly. -/
def yields (op : Operator) (t : Term) : Bool :=
  match t.operator? with
  | some top => op.precedence ≤ top.precedence
  | none => false

/-- Let go the latest held terms as long as they pass a test. -/
def release (test : Term → Bool) (yard : Yard) : Yard :=
  ⟨yard.held.dropWhile test, (yard.held.takeWhile test).reverse ++ yard.gone⟩

/-- Take in the next term. -/
def step (yard : Yard) (t : Term) : Except Fault Yard :=
  match t.kind with
  | .number => .ok { yard with gone := t :: yard.gone }
  | .operator =>
    match t.operator? with
    | none => .error (.unlistedOperator t.text)
    | some op =>
      let released := yard.release (yields op)
      .ok { released with held := t :: released.held }
  | .opening => .ok { yard with held := t :: yard.held }
  | .closing =>
    let released := yard.release fun top => top.kind ≠ .opening
    match released.held with
    | [] => .error .unmatchedClosing
    | _ :: outer => .ok { released with held := outer }
  | .unknown => .error (.strayInfixTerm t.text)

/-- Let go everything at the end of the sequence. -/
def finish (yard : Yard) : Except Fault (List Term) :=
  if yard.held.any fun t => t.kind = .opening then
    .error .unmatchedOpening
  else
    .ok (yard.gone.reverse ++ yard.held)

end Yard

/-- Put a sequence of terms in infix order into postfix order. -/
def toPostfix (terms : List Term) : Except Fault (List Term) := do
  let yard ← terms.foldlM Yard.step .empty
  yard.finish

end Reckoner
