import Reckoner.Decimal.Shortest

/-!
# The text of a double

A finite double is written with the digits of its shortest decimal. From 10⁻⁴ up to below 10¹⁶
the notation is positional with at least one digit on both sides of the point; outside it is one
digit before the point and a signed exponent of at least two digits.
-/

namespace Reckoner

namespace Decimal

/-- Digits with a decimal point; the position counts the digits before the point. -/
def positional (digits : List Char) (point : Int) : List Char :=
  if point ≤ 0 then
    '0' :: '.' :: (List.replicate point.natAbs '0' ++ digits)
  else if point < digits.length then
    digits.take point.toNat ++ '.' :: digits.drop point.toNat
  else
    digits ++ List.replicate (point.toNat - digits.length) '0' ++ ['.', '0']

/-- The digits of a natural, at least two. -/
def twoDigits (n : Nat) : List Char :=
  if n < 10 then '0' :: Nat.toDigits 10 n else Nat.toDigits 10 n

/-- Digits with a point after the first one and an exponent of ten. -/
def scientific (digits : List Char) (exponent : Int) : List Char :=
  let mantissa := match digits with
    | [] => []
    | [first] => [first]
    | first :: rest => first :: '.' :: rest
  mantissa ++ 'e' :: (if exponent < 0 then '-' else '+') :: twoDigits exponent.natAbs

/-- The text of a positive decimal. -/
def chars (d : Decimal) : List Char :=
  let digits := Nat.toDigits 10 d.digits
  let point := digits.length + d.exponent
  if -4 < point ∧ point ≤ 16 then positional digits point else scientific digits (point - 1)

end Decimal

/-- The text of a size. -/
def Magnitude.chars (m : Magnitude) : List Char :=
  if m.units = 0 then ['0', '.', '0'] else m.shortest.chars

namespace Binary64

/-- The sign of a text, empty for a nonnegative number. -/
def signChars (negative : Bool) : List Char :=
  if negative then ['-'] else []

/-- The characters of a double's text. -/
def chars : Binary64 → List Char
  | .nan => ['n', 'a', 'n']
  | .infinite negative => signChars negative ++ ['i', 'n', 'f']
  | .finite negative magnitude => signChars negative ++ magnitude.chars

/-- The shortest text that reads back to the same double. -/
def text (x : Binary64) : String :=
  .ofList x.chars

end Binary64

end Reckoner
