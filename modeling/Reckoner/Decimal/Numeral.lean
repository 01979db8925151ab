import Reckoner.Binary64.Rounding
import Reckoner.Text.Blank
import Reckoner.Text.DecimalDigit

/-!
# Numerals

The texts that denote a double. A decimal numeral is an optional sign, digits with at most one
point and at least one digit, and an optional exponent; digits may be of any script, a single
underscore may stand between two digits, and blanks around the numeral do not count. Infinities
and NaN are written as words in any ASCII case. A decimal numeral denotes the double nearest to
its exact value.
-/

namespace Reckoner

/-- What the text of a number says. -/
inductive Numeral where
  | nan
  | infinite (negative : Bool)
  | decimal (negative : Bool) (significand : Nat) (exponent : Int)
deriving DecidableEq

namespace Numeral

/-- The digits at the start of a text, and the rest. After a digit an underscore may come, and
then another digit must. -/
def digitRunAfter (joinable : Bool) : List Char → List Nat × List Char
  | [] => ([], [])
  | c :: rest =>
    match Text.digitValue? c with
    | some digit =>
      let (digits, after) := digitRunAfter true rest
      (digit :: digits, after)
    | none =>
      if joinable ∧ c = '_' then
        match digitRunAfter false rest with
        | ([], _) => ([], c :: rest)
        | (digits, after) => (digits, after)
      else
        ([], c :: rest)

/-- The digits at the start of a text, and the rest. -/
def digitRun (text : List Char) : List Nat × List Char :=
  digitRunAfter false text

/-- The number that digits denote in base ten. -/
def ofDigits (digits : List Nat) : Nat :=
  digits.foldl (fun value digit => 10 * value + digit) 0

/-- Split an optional sign off a text; the flag tells a minus. -/
def splitSign : List Char → Bool × List Char
  | '-' :: rest => (true, rest)
  | '+' :: rest => (false, rest)
  | text => (false, text)

/-- Read the exponent that ends a numeral; without an exponent mark it is zero. -/
def exponent? : List Char → Option Int
  | [] => some 0
  | c :: rest =>
    if c = 'e' ∨ c = 'E' then
      match splitSign rest with
      | (negative, text) =>
        match digitRun text with
        | ([], _) => none
        | (digits, []) => some (if negative then -(ofDigits digits : Int) else ofDigits digits)
        | (_, _ :: _) => none
    else
      none

/-- The digits after a point, if a point comes first, and the rest. -/
def fractionRun : List Char → List Nat × List Char
  | '.' :: rest => digitRun rest
  | text => ([], text)

/-- Read an unsigned decimal numeral as a significand and a power of ten. -/
def unsigned? (text : List Char) : Option (Nat × Int) :=
  let (whole, afterWhole) := digitRun text
  let (fraction, afterFraction) := fractionRun afterWhole
  if whole = [] ∧ fraction = [] then
    none
  else
    (exponent? afterFraction).map fun exponent =>
      (ofDigits (whole ++ fraction), exponent - fraction.length)

/-- Read a numeral without blanks around it. -/
def ofTrimmed? (text : List Char) : Option Numeral :=
  let (negative, unsigned) := splitSign text
  let word := unsigned.map Char.toLower
  if word = ['i', 'n', 'f'] ∨ word = ['i', 'n', 'f', 'i', 'n', 'i', 't', 'y'] then
    some (.infinite negative)
  else if word = ['n', 'a', 'n'] then
    some .nan
  else
    (unsigned? unsigned).map fun (significand, exponent) => .decimal negative significand exponent

/-- Read a numeral; a text of another form denotes no number. -/
def ofString? (text : String) : Option Numeral :=
  ofTrimmed? (Text.trim text.toList)

end Numeral

namespace Binary64

/-- The double nearest to a whole number times a power of ten. Powers far outside the range are not
computed: from 10³¹⁰ on everything is infinite, and a significand below 8ⁿ · 2⁻¹⁰⁸⁰ divided by 10ⁿ
is less than half a step. -/
def ofDecimal (negative : Bool) (significand : Nat) (exponent : Int) : Binary64 :=
  if significand = 0 then
    zero negative
  else if 310 ≤ exponent then
    .infinite negative
  else if exponent < 0 ∧ significand.log2 + 1081 ≤ 3 * exponent.natAbs then
    zero negative
  else
    let scaled := significand * Nat.pow 10 exponent.toNat
    round negative (scaled <<< 1074) (Nat.pow 10 (-exponent).toNat)

/-- The double that a numeral denotes. -/
def ofNumeral : Numeral → Binary64
  | .nan => .nan
  | .infinite negative => .infinite negative
  | .decimal negative significand exponent => ofDecimal negative significand exponent

/-- The double that a text denotes, if it is a numeral. -/
def ofString? (text : String) : Option Binary64 :=
  (Numeral.ofString? text).map ofNumeral

end Binary64

end Reckoner
