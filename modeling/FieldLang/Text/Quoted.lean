/-
Quoted texts, as error messages and displays of trees show them.

A text stands between single quotes, or between double quotes if it holds a single quote
and no double one. Inside, the backslash and the quote in use are escaped, line feed,
carriage return and tab have a letter each, and every other character that is not
printable is written by its number in two, four or eight hexadecimal digits.

* `hex` : a number in a given count of hexadecimal digits;
* `escaped` : one character inside quotes;
* `quote` : the quoted text.
-/
import FieldLang.Text.Printable

namespace FieldLang.Text

/-- The last `width` hexadecimal digits of a number, in lower case. -/
def hex : Nat → Nat → List Char
  | 0, _ => []
  | width + 1, n => hex width (n / 16) ++ [Nat.digitChar (n % 16)]

/-- How a character stands in a text quoted by `mark`. -/
def escaped (mark c : Char) : List Char :=
  if c = mark ∨ c = '\\' then ['\\', c]
  else if c = '\n' then ['\\', 'n']
  else if c = '\r' then ['\\', 'r']
  else if c = '\t' then ['\\', 't']
  else if isPrintable c then [c]
  else if c.toNat < 0x100 then '\\' :: 'x' :: hex 2 c.toNat
  else if c.toNat < 0x10000 then '\\' :: 'u' :: hex 4 c.toNat
  else '\\' :: 'U' :: hex 8 c.toNat

/-- The quotation mark for a text: double only to spare escapes of single ones. -/
def quoteMark (s : List Char) : Char :=
  if '\'' ∈ s ∧ '"' ∉ s then '"' else '\''

/-- The text between quotation marks. -/
def quoteChars (s : List Char) : List Char :=
  let mark := quoteMark s
  mark :: s.flatMap (escaped mark) ++ [mark]

/-- The text between quotation marks. -/
def quote (s : String) : String := String.ofList (quoteChars s.toList)

end FieldLang.Text
