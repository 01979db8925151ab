import Reckoner.Text.Quoted

/-!
# Faults and rejections

A fault is the reason why a sequence of terms has no value. A rejection is what a caller sees: a
kind, a message, and the expression at fault once it is known. The full description of a
rejection quotes the expression, so that it can be read back from it.
-/

namespace Reckoner

/-- Why a sequence of terms has no value. -/
inductive Fault where
  | invalid
  | unmatchedClosing
  | unmatchedOpening
  | unlistedOperator (text : String)
  | strayInfixTerm (text : String)
  | strayPostfixTerm (text : String)
  | unparsableNumber (text : String)
  | unknownOperator (symbol : String)
  | missingOperands (symbol : String)
  | emptyStack
  | leftover (count : Nat)
deriving DecidableEq

namespace Fault

/-- The message of a fault. -/
def message : Fault → String
  | .invalid => "Invalid Expression"
  | .unmatchedClosing => "Unmatched closing parenthesis"
  | .unmatchedOpening => "Unmatched opening parenthesis"
  | .unlistedOperator text => Text.quote text
  | .strayInfixTerm text => "Unexpected term " ++ Text.quote text ++ " in infix sequence"
  | .strayPostfixTerm text => "Unexpected term " ++ Text.quote text ++ " in postfix sequence"
  | .unparsableNumber text => "Unparsable number " ++ Text.quote text
  | .unknownOperator symbol => "Unknown operator " ++ Text.quote symbol
  | .missingOperands symbol => "Insufficient operands for " ++ symbol
  | .emptyStack => "Empty stack after evaluation"
  | .leftover count => "Stack has " ++ toString count ++ " elements after evaluation, expected 1"

end Fault

/-- The kinds of rejections. A malformed sequence and an unknown operator are special cases of an
invalid expression; an operator that the table does not list is a failed look-up instead. -/
inductive Rejection.Kind where
  | invalid
  | malformed
  | unknownOperator (symbol : String)
  | unlistedOperator (text : String)
deriving DecidableEq

/-- A refused expression. -/
structure Rejection where
  kind : Rejection.Kind
  message : String
  expression : Option String
deriving DecidableEq

/-- The kind of rejection that a fault leads to. -/
def Fault.kind : Fault → Rejection.Kind
  | .invalid => .invalid
  | .unknownOperator symbol => .unknownOperator symbol
  | .unlistedOperator text => .unlistedOperator text
  | _ => .malformed

/-- The rejection of a sequence of terms whose expression is not known. -/
def Fault.rejection (fault : Fault) : Rejection :=
  ⟨fault.kind, fault.message, none⟩

namespace Rejection

/-- Name the expression at fault, unless one is named already; a failed look-up names none. -/
def about (r : Rejection) (text : String) : Rejection :=
  match r.kind with
  | .unlistedOperator _ => r
  | _ => { r with expression := some (r.expression.getD text) }

/-- The message, followed by the quoted expression if it is known. -/
def description (r : Rejection) : String :=
  match r.expression with
  | none => r.message
  | some text => r.message ++ ": " ++ Text.quote text

end Rejection

end Reckoner
