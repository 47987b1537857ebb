/-
Numerals in the digits of any script, after version 14 of the Unicode character database.

* `digitZeros` : the zero of every row of decimal digits;
* `digitValue?` : the value of a decimal digit;
* `asciiNumeral` : a numeral in ASCII digits, without the spaces around it.

Design notes: the ten digits of a script follow each other. Within ASCII only the space and the controls
from tab to carriage return count as spaces around a numeral, unlike around other words.
-/
import FieldLang.Text.Blank

namespace FieldLang.Text

/-- The zeros of the scripts that have decimal digits. -/
def digitZeros : List Nat :=
  [0x30, 0x660, 0x6F0, 0x7C0, 0x966, 0x9E6, 0xA66, 0xAE6, 0xB66, 0xBE6, 0xC66, 0xCE6, 0xD66,
   0xDE6, 0xE50, 0xED0, 0xF20, 0x1040, 0x1090, 0x17E0, 0x1810, 0x1946, 0x19D0, 0x1A80, 0x1A90,
   0x1B50, 0x1BB0, 0x1C40, 0x1C50, 0xA620, 0xA8D0, 0xA900, 0xA9D0, 0xA9F0, 0xAA50, 0xABF0,
   0xFF10, 0x104A0, 0x10D30, 0x11066, 0x110F0, 0x11136, 0x111D0, 0x112F0, 0x11450, 0x114D0,
   0x11650, 0x116C0, 0x11730, 0x118E0, 0x11950, 0x11C50, 0x11D50, 0x11DA0, 0x16A60, 0x16AC0,
   0x16B50, 0x1D7CE, 0x1D7D8, 0x1D7E2, 0x1D7EC, 0x1D7F6, 0x1E140, 0x1E2F0, 0x1E950, 0x1FBF0]

/-- The value of a decimal digit. -/
def digitValue? (c : Char) : Option Nat :=
  (digitZeros.find? fun zero => zero ≤ c.toNat && c.toNat < zero + 10).map (c.toNat - ·)

/-- The character that stands for another one in a numeral; a question mark stands for those that no
numeral has. -/
def asciiNumeralChar (c : Char) : Char :=
  if c.toNat < 127 then c
  else if isBlank c then ' '
  else
    match digitValue? c with
    | some n => Char.ofNat (48 + n)
    | none => '?'

/-- A space around a numeral. -/
def isNumeralSpace (c : Char) : Bool := c == ' ' || (9 ≤ c.toNat && c.toNat ≤ 13)

/-- A numeral in ASCII, without the spaces around it. -/
def asciiNumeral (s : List Char) : List Char :=
  let start := (s.map asciiNumeralChar).dropWhile isNumeralSpace
  (start.reverse.dropWhile isNumeralSpace).reverse

end FieldLang.Text
