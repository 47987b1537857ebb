/-
Which decimal digits stand for a double.

* `Digits` : a decimal number `coeff * 10 ^ exp`;
* `shortest` : the fewest digits that read back to the same double, of two such numbers
  the nearer one, and of two equally near ones the even one;
* `significant` : a given count of digits, rounded to nearest with ties to even.

Design notes: both select digits by exact arithmetic. A decimal reads back to a double when
it lies between the midpoints to the two neighbouring doubles, the midpoints included
exactly when the coefficient is even.
-/
import FieldLang.Decimal.Binary

namespace FieldLang.Decimal

/-- The decimal number `coeff * 10 ^ exp`. -/
structure Digits where
  coeff : Nat
  exp : Int
deriving Repr, DecidableEq

/-- The same number without trailing zeros in its coefficient. -/
def Digits.strip (d : Digits) : Digits :=
  if h : d.coeff ≠ 0 ∧ d.coeff % 10 = 0 then strip ⟨d.coeff / 10, d.exp + 1⟩ else d
termination_by d.coeff
decreasing_by omega

/-- Whether `d`, counted in units of a grid on which one unit of the coefficient is
`num / den`, reads back to `x`. -/
def Magnitude.admits (x : Magnitude) (num den d : Nat) : Bool :=
  let below := if x.narrowBelow then 4 * x.coeff - 1 else 4 * x.coeff - 2
  let above := 4 * x.coeff + 2
  let d := 4 * d * den
  if x.coeff % 2 = 0 then below * num ≤ d && d ≤ above * num
  else below * num < d && d < above * num

/-- The point of the grid `10 ^ e` that reads back to `x`, if one does. -/
def Magnitude.onGrid? (x : Magnitude) (e : Int) : Option Digits :=
  let (num, den) := x.unit e
  let lo := x.coeff * num / den
  let rest := x.coeff * num % den
  match x.admits num den lo, x.admits num den (lo + 1) with
  | false, false => none
  | true, false => some ⟨lo, e⟩
  | false, true => some ⟨lo + 1, e⟩
  | true, true =>
    if 2 * rest < den then some ⟨lo, e⟩
    else if den < 2 * rest then some ⟨lo + 1, e⟩
    else if lo % 2 = 0 then some ⟨lo, e⟩ else some ⟨lo + 1, e⟩

/-- The magnitude written out in full. -/
def Magnitude.exact (x : Magnitude) : Digits :=
  if 0 ≤ x.exp then ⟨x.coeff * Nat.pow 2 x.exp.toNat, 0⟩
  else ⟨x.coeff * Nat.pow 5 (-x.exp).toNat, x.exp⟩

/-- The fewest digits that read back to the same double. Seventeen always do. -/
def shortest (x : Magnitude) : Digits :=
  if x.coeff = 0 then ⟨0, 0⟩
  else
    let k := x.places
    let found := (List.range 17).findSome? fun n => x.onGrid? (k - (n + 1 : Nat))
    (found.getD x.exact).strip

/-- The magnitude rounded to `n` significant digits. -/
def significant (n : Nat) (x : Magnitude) : Digits :=
  if x.coeff = 0 then ⟨0, 0⟩
  else
    let e := x.places - (n : Int)
    let (num, den) := x.unit e
    (Digits.mk (roundDiv (x.coeff * num) den) e).strip

end FieldLang.Decimal
