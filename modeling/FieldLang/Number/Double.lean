/-
Doubles as numbers that distances are computed in.

* `Double.trunc`, `Double.sign`, `Double.remainder`, `Double.hypot` : operations that are
  computed exactly and rounded once;
* `Double.minimum`, `Double.maximum` : of two numbers, NaN if either is;
* the instance of `Scalar` for doubles.
-/
import FieldLang.Decimal.Binary
import FieldLang.Number.Scalar

namespace FieldLang

namespace Double

/-- The value that is no number. -/
def nan : Float := 0.0 / 0.0

/-- Positive infinity. -/
def infinity : Float := Decimal.infinity

/-- The whole number next to `x` in the direction of zero. -/
def trunc (x : Float) : Float := if x < 0 then x.ceil else x.floor

/-- One, zero or minus one, after the sign of a number. -/
def sign (x : Float) : Float :=
  if x > 0 then 1 else if x < 0 then -1 else if x == 0 then 0 else x

/-- The smaller of two numbers. -/
def minimum (x y : Float) : Float :=
  if x.isNaN then x else if y.isNaN then y else if y < x then y else x

/-- The larger of two numbers. -/
def maximum (x y : Float) : Float :=
  if x.isNaN then x else if y.isNaN then y else if x < y then y else x

/-- What is left of `x` after taking off `y` a whole number of times, in the sign of `x`. -/
def remainder (x y : Float) : Float :=
  match Decimal.parts x, Decimal.parts y with
  | .finite negative a, .finite _ b =>
    if b.coeff = 0 then nan
    else
      let e := Decimal.commonExp a b
      let r := a.scaledTo e % b.scaledTo e
      let r := Decimal.ofMagnitude ⟨r, e⟩
      if negative then -r else r
  | .finite _ _, .infinite _ => x
  | _, _ => nan

/-- The square root of `n * 2 ^ (2 * e)`, rounded once: the integer root of `n` after a shift
that leaves it enough bits, and one more bit that tells whether it is exact. -/
def sqrtExact (n : Nat) (e : Int) : Float :=
  let shift := 60 - n.log2 / 2
  let n' := n * Nat.pow 4 shift
  let r := Decimal.isqrt n'
  let sticky := if r * r = n' then 0 else 1
  Decimal.ofMagnitude ⟨2 * r + sticky, e - shift - 1⟩

/-- The length of the vector `(x, y)`; infinite if either of them is. -/
def hypot (x y : Float) : Float :=
  match Decimal.parts x, Decimal.parts y with
  | .infinite _, _ => infinity
  | _, .infinite _ => infinity
  | .finite _ a, .finite _ b =>
    let e := Decimal.commonExp a b
    let u := a.scaledTo e
    let v := b.scaledTo e
    sqrtExact (u * u + v * v) e
  | _, _ => nan

/-- The remainder of a division that rounds down, in the sign of `b`. -/
def modulo (a b : Float) : Float := remainder (remainder a b + b) b

/-- The nearest whole number, a half going away from zero. -/
def roundHalfAway (x : Float) : Float := sign x * (x.abs + 0.5).floor

end Double

instance : Scalar Float where
  ofNat := Float.ofNat
  floor := Float.floor
  trunc := Double.trunc
  magnitude := Float.abs
  sqrt := Float.sqrt
  hypot := Double.hypot
  minimum := Double.minimum
  maximum := Double.maximum
  isLess x y := x < y
  isAtMost x y := x ≤ y

end FieldLang
