import Reckoner.Binary64.Arithmetic

/-!
# Operators

The six binary operators of the expression language. An operator with a higher precedence binds
tighter, and operators of one precedence group from the left, the power included.
-/

namespace Reckoner

/-- A binary operator. -/
inductive Operator where
  | sub
  | add
  | mod
  | div
  | mul
  | pow
deriving DecidableEq

namespace Operator

/-- Every operator. -/
def all : List Operator :=
  [.sub, .add, .mod, .div, .mul, .pow]

/-- The character that writes the operator. -/
def symbol : Operator → String
  | .sub => "-"
  | .add => "+"
  | .mod => "%"
  | .div => "/"
  | .mul => "*"
  | .pow => "^"

/-- The short name of the operator. -/
def name : Operator → String
  | .sub => "sub"
  | .add => "add"
  | .mod => "mod"
  | .div => "div"
  | .mul => "mul"
  | .pow => "pow"

/-- How tightly the operator binds. -/
def precedence : Operator → Nat
  | .sub | .add => 0
  | .mod => 1
  | .div | .mul => 2
  | .pow => 3

/-- The operator that a text writes. -/
def ofSymbol? (text : String) : Option Operator :=
  all.find? fun op => op.symbol = text

/-- The operator with the given short name. -/
def ofName? (text : String) : Option Operator :=
  all.find? fun op => op.name = text

/-- Apply the operator to its left and right operand. -/
def apply : Operator → Binary64 → Binary64 → Binary64
  | .sub => Binary64.sub
  | .add => Binary64.add
  | .mod => Binary64.mod
  | .div => Binary64.div
  | .mul => Binary64.mul
  | .pow => Binary64.pow

/-- The symbols tell the operators apart. -/
theorem ofSymbol?_eq_some_iff {text : String} {op : Operator} :
    ofSymbol? text = some op ↔ text = op.symbol := by
  constructor
  · intro h
    have := List.find?_some h
    simpa using (of_decide_eq_true this).symm
  · rintro rfl
    cases op <;> rfl

end Operator

end Reckoner
