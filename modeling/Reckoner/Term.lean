import Reckoner.Decimal.Layout
import Reckoner.Decimal.Numeral
import Reckoner.Operator

/-!
# Terms

The pieces of an expression: numbers, operators, parentheses, and characters that belong to no
expression. A term keeps its text as written. A number also keeps the double that its text
denotes; a number whose text denotes none is still a number term, and is refused later.
-/

namespace Reckoner

/-- The kinds of terms. -/
inductive Kind where
  | number
  | operator
  | opening
  | closing
  | unknown
deriving DecidableEq

/-- A piece of an expression with its text, and its value if it is a number that has one. -/
structure Term where
  kind : Kind
  text : String
  value : Option Binary64
deriving DecidableEq

namespace Term

/-- A number, with the value that its text denotes. -/
def number (text : String) : Term :=
  ⟨.number, text, Binary64.ofString? text⟩

/-- An operator; its text need not be the symbol of one. -/
def operator (text : String) : Term :=
  ⟨.operator, text, none⟩

/-- A parenthesis, a closing one unless it is the opening one. -/
def paren (text : String) : Term :=
  ⟨if text = "(" then .opening else .closing, text, none⟩

/-- A text that belongs to no expression. -/
def unknown (text : String) : Term :=
  ⟨.unknown, text, none⟩

/-- Whether the term is a number, with or without a value. -/
def isNumber (t : Term) : Bool :=
  t.kind = .number

/-- The value of a number. -/
def operand? (t : Term) : Option Binary64 :=
  if t.kind = .number then t.value else none

/-- The operator that an operator term writes. -/
def operator? (t : Term) : Option Operator :=
  if t.kind = .operator then Operator.ofSymbol? t.text else none

/-- A number by its value, any other term by its text. -/
def display (t : Term) : String :=
  match t.operand? with
  | some value => value.text
  | none => t.text

/-- The terms of a sequence, separated by commas and enclosed in brackets. -/
def displayAll (terms : List Term) : String :=
  "[" ++ ", ".intercalate (terms.map display) ++ "]"

end Term

end Reckoner
