/-
Reading decimal numbers.

* `ofDigits` : the natural number that a row of digits stands for;
* `readLiteral` : a literal of the language, digits with at most one point among them;
* `asciiInteger?`, `asciiNumber?` : a number in ASCII with a sign, an exponent, grouping underscores,
  `inf` and `nan`;
* `readInteger?`, `readNumber?` : the same in the digits of any script, with spaces around it.
-/
import FieldLang.Decimal.Binary
import FieldLang.Text.Numeral

namespace FieldLang.Decimal

/-- The value of a row of decimal digits. -/
def ofDigits (ds : List Char) : Nat := ds.foldl (fun n c => 10 * n + (c.toNat - 48)) 0

/-- The double nearest to `coeff * 10 ^ exp`. Far outside the range of doubles the exponent
decides alone. -/
def ofScientific (coeff : Nat) (exp : Int) : Float :=
  if coeff = 0 then 0
  else if 400 < exp then infinity
  else if (coeff.log2 : Int) + 3 * exp < -1200 then 0
  else if 0 ≤ exp then ofRatio (coeff * Nat.pow 10 exp.toNat) 1 0
  else ofRatio coeff (Nat.pow 10 (-exp).toNat) 0

/-- The value of a literal: digits, a point, digits, of which one row may be missing. -/
def readLiteral (s : List Char) : Float :=
  let before := s.takeWhile (· != '.')
  let after := (s.dropWhile (· != '.')).drop 1
  ofScientific (ofDigits (before ++ after)) (-(after.length : Int))

/-- A row of digits in which single underscores may stand between two digits. -/
def ungroup? : List Char → Option (List Char)
  | [] => some []
  | [c] => if c.isDigit then some [c] else none
  | c :: '_' :: d :: rest =>
    if c.isDigit && d.isDigit then (c :: ·) <$> ungroup? (d :: rest) else none
  | c :: rest => if c.isDigit then (c :: ·) <$> ungroup? rest else none

/-- A sign and the rest. -/
def splitSign : List Char → Bool × List Char
  | '-' :: rest => (true, rest)
  | '+' :: rest => (false, rest)
  | s => (false, s)

/-- The digits that an integer may have. -/
def maxIntegerDigits : Nat := 4300

/-- An integer with a sign and grouping underscores. -/
def asciiInteger? (s : List Char) : Option Int := do
  let (negative, body) := splitSign s
  let ds ← ungroup? body
  if ds.isEmpty ∨ maxIntegerDigits < ds.length then none
  else
    let n : Int := ofDigits ds
    some (if negative then -n else n)

/-- The exponent behind an `e`, or zero if there is none. -/
def readExponent? : List Char → Option Int
  | [] => some 0
  | 'e' :: rest => do
    let (negative, body) := splitSign rest
    let ds ← ungroup? body
    if ds.isEmpty then none
    else
      let n : Int := ofDigits ds
      some (if negative then -n else n)
  | _ => none

/-- Digits, at most one point among them, and an exponent. -/
def readUnsigned? (s : List Char) : Option Float := do
  let mantissa := s.takeWhile (· != 'e')
  let exponent ← readExponent? (s.dropWhile (· != 'e'))
  let before ← ungroup? (mantissa.takeWhile (· != '.'))
  let after ← ungroup? ((mantissa.dropWhile (· != '.')).drop 1)
  if before.isEmpty && after.isEmpty then none
  else some (ofScientific (ofDigits (before ++ after)) (exponent - after.length))

/-- A number with a sign, or one of the words for infinity and NaN in place of digits; letters
count in either case. -/
def asciiNumber? (s : List Char) : Option Float := do
  let (negative, body) := splitSign (s.map Char.toLower)
  let x ←
    if body == ['i', 'n', 'f'] || body == ['i', 'n', 'f', 'i', 'n', 'i', 't', 'y'] then
      some infinity
    else if body == ['n', 'a', 'n'] then some (0.0 / 0.0)
    else readUnsigned? body
  some (if negative then -x else x)

/-- An integer with spaces around it, in any digits. -/
def readInteger? (s : List Char) : Option Int := asciiInteger? (Text.asciiNumeral s)

/-- A number with spaces around it, in any digits. -/
def readNumber? (s : List Char) : Option Float := asciiNumber? (Text.asciiNumeral s)

end FieldLang.Decimal
