/-
Blank characters, and trimming a text of them.

The blank characters are the 29 code points that separate words in a source text: the
ASCII controls from tab to carriage return, the four information separators, the space,
and the spaces and line separators beyond ASCII.

* `isBlank` : the property itself;
* `trimStart`, `trimEnd`, `trim` : a text without the blanks at its start, its end, both.
-/

namespace FieldLang.Text

/-- Closed ranges of blank code points, ascending and apart. -/
def blankRanges : List (Nat × Nat) :=
  [(0x09, 0x0D), (0x1C, 0x20), (0x85, 0x85), (0xA0, 0xA0), (0x1680, 0x1680),
   (0x2000, 0x200A), (0x2028, 0x2029), (0x202F, 0x202F), (0x205F, 0x205F), (0x3000, 0x3000)]

/-- A character that only separates. -/
def isBlank (c : Char) : Bool :=
  blankRanges.any fun r => r.1 ≤ c.toNat && c.toNat ≤ r.2

/-- The text from its first character that is not blank. -/
def trimStart (s : List Char) : List Char := s.dropWhile isBlank

/-- The text up to its last character that is not blank. -/
def trimEnd (s : List Char) : List Char := (s.reverse.dropWhile isBlank).reverse

/-- The text between its first and its last character that are not blank. -/
def trim (s : List Char) : List Char := trimEnd (trimStart s)

end FieldLang.Text
