import Reckoner.Term

/-!
# Scanning

A text is cut into terms in one pass over its characters. Digits and points gather in a run. A
sign right after a digit or point is an operator; anywhere else it joins the run and so becomes
the sign of the number that follows. Every other character ends the run and is a term by itself.
A run that holds nothing but a minus stands for minus one. Scanning never fails: what belongs to
no expression becomes an unknown term.
-/

namespace Reckoner

/-- Whether a character belongs to a number wherever it stands. -/
def isNumeric (c : Char) : Bool :=
  c.isDigit || c = '.'

/-- Whether a character is a plus or a minus. -/
def isSign (c : Char) : Bool :=
  c = '+' || c = '-'

namespace Term

/-- The term of a single character outside a number. -/
def ofChar (c : Char) : Term :=
  if (Operator.ofSymbol? (.singleton c)).isSome then .operator (.singleton c)
  else if c = '(' ∨ c = ')' then .paren (.singleton c)
  else .unknown (.singleton c)

/-- The number that a finished run stands for, none for an empty run. -/
def ofRun : List Char → List Term
  | [] => []
  | ['-'] => [.number "-1"]
  | run => [.number (.ofList run)]

end Term

/-- Scan the rest of a text, given the run so far, latest character first, and whether the
character before was a digit or a point. -/
def scanFrom (run : List Char) (afterNumeric : Bool) : List Char → List Term
  | [] => Term.ofRun run.reverse
  | c :: rest =>
    if isNumeric c then
      scanFrom (c :: run) true rest
    else if isSign c && !afterNumeric then
      scanFrom (c :: run) false rest
    else
      Term.ofRun run.reverse ++ Term.ofChar c :: scanFrom [] false rest

/-- Cut a text into terms. -/
def scan (text : String) : List Term :=
  scanFrom [] false text.toList

end Reckoner
