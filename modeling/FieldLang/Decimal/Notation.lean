/-
How decimal numbers are laid out as text.

Four texts of a double are in use:

* `literal` : the shortest digits, always with a point or an exponent (`1.0`, `1e+16`), for
  trees, tokens and settings;
* `positional` : the shortest digits without any exponent (`1`, `0.0000001`), the spelling of
  a literal in a program;
* `general n` : `n` significant digits without trailing zeros (`0.3`, `1e+300`), for
  computed values and reports;
* `wholeText` : all digits of a whole number.

Design notes: a positional text needs only the digits and the place of the point; an
exponent has a sign and at least two digits.
-/
import FieldLang.Decimal.Shortest

namespace FieldLang.Decimal

/-- The decimal digits of a natural number. -/
def natText (n : Nat) : List Char := Nat.toDigits 10 n

/-- The power of ten of the leading digit. -/
def Digits.leading (d : Digits) : Int := d.exp + ((natText d.coeff).length : Int) - 1

/-- Digits with the point where it belongs, and no more zeros than it needs. -/
def Digits.positional (d : Digits) : List Char :=
  let ds := natText d.coeff
  let p := d.leading
  if 0 ≤ d.exp then ds ++ List.replicate d.exp.toNat '0'
  else if 0 ≤ p then ds.take (p.toNat + 1) ++ '.' :: ds.drop (p.toNat + 1)
  else '0' :: '.' :: (List.replicate (-p - 1).toNat '0' ++ ds)

/-- A signed exponent of at least two digits. -/
def exponentText (p : Int) : List Char :=
  let ds := natText p.natAbs
  'e' :: (if p < 0 then '-' else '+') :: (if ds.length < 2 then '0' :: ds else ds)

/-- One digit, the others behind a point, and the exponent. -/
def Digits.scientific (d : Digits) : List Char :=
  match natText d.coeff with
  | [] => exponentText d.leading
  | c :: [] => c :: exponentText d.leading
  | c :: rest => c :: '.' :: (rest ++ exponentText d.leading)

/-- The text of a double from the text of its magnitude. -/
def signed (x : Float) (body : Magnitude → List Char) : List Char :=
  let minus (negative : Bool) (s : List Char) := if negative then '-' :: s else s
  match parts x with
  | .nan => ['n', 'a', 'n']
  | .infinite negative => minus negative ['i', 'n', 'f']
  | .finite negative mag => minus negative (body mag)

/-- The shortest digits, positional when the leading one counts at least `10 ^ -4` and less
than `10 ^ 16`, and with `.0` when nothing else shows that the number is no integer. -/
def literal (x : Float) : List Char :=
  signed x fun mag =>
    let d := shortest mag
    if -4 ≤ d.leading ∧ d.leading < 16 then
      if 0 ≤ d.exp then d.positional ++ ['.', '0'] else d.positional
    else d.scientific

/-- The shortest digits of a finite double without an exponent. -/
def positional (x : Float) : List Char :=
  signed x fun mag => (shortest mag).positional

/-- `n` significant digits, positional when the leading one counts at least `10 ^ -4` and
less than `10 ^ n`. -/
def general (n : Nat) (x : Float) : List Char :=
  signed x fun mag =>
    let d := significant n mag
    if -4 ≤ d.leading ∧ d.leading < n then d.positional else d.scientific

/-- The integer part of a magnitude in full. -/
def wholeText (mag : Magnitude) : List Char := natText mag.whole

end FieldLang.Decimal
