import Reckoner.Text.Printable

/-!
# Quoted text

A text is quoted by enclosing it in marks and escaping what would be ambiguous or invisible. The
single mark is used unless the text holds single marks and no double ones. The mark and the
backslash are escaped by a backslash, three controls by a letter, and every other character that
is not printable by its code point in two, four or eight hexadecimal digits.
-/

namespace Reckoner.Text

/-- The mark that encloses a quoted text. -/
def quoteMark (text : List Char) : Char :=
  if '\x27' ∈ text ∧ '\x22' ∉ text then '\x22' else '\x27'

/-- The last digits of a number in base sixteen, exactly as many as the width. -/
def hexDigits : (width : Nat) → Nat → List Char
  | 0, _ => []
  | width + 1, n => hexDigits width (n / 16) ++ [Nat.digitChar (n % 16)]

/-- How a character is written between two marks. -/
def escapeChar (mark c : Char) : List Char :=
  if c = mark ∨ c = '\x5c' then ['\x5c', c]
  else if c = '\n' then ['\x5c', 'n']
  else if c = '\r' then ['\x5c', 'r']
  else if c = '\t' then ['\x5c', 't']
  else if isPrintable c then [c]
  else if c.toNat < 0x100 then '\x5c' :: 'x' :: hexDigits 2 c.toNat
  else if c.toNat < 0x10000 then '\x5c' :: 'u' :: hexDigits 4 c.toNat
  else '\x5c' :: 'U' :: hexDigits 8 c.toNat

/-- The characters of a quoted text, marks included. -/
def quoteChars (text : List Char) : List Char :=
  quoteMark text :: (text.flatMap (escapeChar (quoteMark text)) ++ [quoteMark text])

/-- The text between marks, with everything ambiguous or invisible escaped. -/
def quote (text : String) : String :=
  .ofList (quoteChars text.toList)

end Reckoner.Text
