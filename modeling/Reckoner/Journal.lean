import Reckoner.Fault
import Reckoner.Term

/-!
# The journal

What the parts of the program report while they work. An event holds the data it is about; its
level, its source and its wording follow from it.
-/

namespace Reckoner

/-- How important an event is. -/
inductive Level where
  | debug
  | info
  | warning
deriving DecidableEq

/-- The part of the program that reports an event. -/
inductive Source where
  | terms
  | reduction
  | evaluation
deriving DecidableEq

/-- Something worth reporting. -/
inductive Event where
  | strayClosing
  | invalidTerm (text : String)
  | invalidExpression (text : String)
  | infixOrder (terms : List Term)
  | postfixOrder (terms : List Term)
  | leftoverProduct (count : Nat) (terms : List Term)
  | cacheHit (text : String)
  | cacheCleared (hits misses : Nat)
deriving DecidableEq

namespace Event

/-- The level of an event. -/
def level : Event → Level
  | .invalidExpression _ => .warning
  | .cacheCleared _ _ => .info
  | _ => .debug

/-- The source of an event. -/
def source : Event → Source
  | .strayClosing | .invalidTerm _ => .terms
  | .leftoverProduct _ _ => .reduction
  | _ => .evaluation

/-- The start of an expression, as far as a report shows it. -/
def excerpt (text : String) : String :=
  .ofList (text.toList.take 50)

/-- The wording of an event. -/
def message : Event → String
  | .strayClosing => "Closing parenthesis without matching opening one"
  | .invalidTerm text => "Invalid term: " ++ Text.quote text
  | .invalidExpression text => "Invalid expression: " ++ Text.quote (excerpt text)
  | .infixOrder terms => "Infix: " ++ Term.displayAll terms
  | .postfixOrder terms => "Postfix: " ++ Term.displayAll terms
  | .leftoverProduct count terms =>
    "Partial expression with " ++ toString count ++ " stack elements, multiplying them: " ++
      Term.displayAll terms
  | .cacheHit text => "Cache hit for expression: " ++ excerpt text ++ "..."
  | .cacheCleared hits misses =>
    "Cache cleared. Hits: " ++ toString hits ++ ", Misses: " ++ toString misses

end Event

end Reckoner
