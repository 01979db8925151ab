import Reckoner.Journal

/-!
# Validity

A sequence of terms is valid if every term is a parenthesis, a known operator or a number with a
value, and there are as many opening as closing parentheses. Under strict nesting no closing
parenthesis may come before its opening one. Whether operands and operators alternate is not
asked here.
-/

namespace Reckoner

/-- Why a sequence of terms is not valid. -/
inductive Objection where
  | strayClosing
  | invalidTerm (text : String)
  | unequalCounts
deriving DecidableEq

/-- The event that reports an objection; unequal counts are reported by nobody. -/
def Objection.events : Objection → List Event
  | .strayClosing => [.strayClosing]
  | .invalidTerm text => [.invalidTerm text]
  | .unequalCounts => []

/-- The first objection to the rest of a sequence, given how many more parentheses were opened
than closed so far. -/
def objectionFrom (strict : Bool) (depth : Int) : List Term → Option Objection
  | [] => if depth = 0 then none else some .unequalCounts
  | t :: rest =>
    match t.kind with
    | .opening => objectionFrom strict (depth + 1) rest
    | .closing =>
      if strict ∧ depth ≤ 0 then some .strayClosing else objectionFrom strict (depth - 1) rest
    | _ =>
      if t.operator?.isSome ∨ t.operand?.isSome then objectionFrom strict depth rest
      else some (.invalidTerm t.text)

/-- The first objection to a sequence of terms. -/
def objection? (strict : Bool) (terms : List Term) : Option Objection :=
  objectionFrom strict 0 terms

end Reckoner
