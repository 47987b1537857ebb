/-
Numbers that distances are computed in.

* `Scalar` : arithmetic, rounding, roots and comparisons, without any laws;
* `Scalar.clamp`, `Scalar.mix`, `Scalar.fractDown` : small functions of such numbers.

Design notes: shapes, blends and noise are written once, for every `Scalar`. Programs run
on doubles; the class has no laws because doubles have none of the usual ones.
-/

namespace FieldLang

/-- Numbers with the operations that distances are made of. -/
class Scalar (α : Type) extends Add α, Sub α, Mul α, Div α, Neg α, OfScientific α where
  ofNat : Nat → α
  /-- The greatest whole number that is not greater. -/
  floor : α → α
  /-- The whole number that drops the digits behind the point. -/
  trunc : α → α
  magnitude : α → α
  sqrt : α → α
  /-- The length of a vector in the plane. -/
  hypot : α → α → α
  minimum : α → α → α
  maximum : α → α → α
  isLess : α → α → Bool
  isAtMost : α → α → Bool

namespace Scalar

variable {α : Type} [Scalar α]

/-- The number, or the nearer end of the range from `lo` to `hi`. -/
def clamp (x lo hi : α) : α := minimum (maximum x lo) hi

/-- The point between `a` and `b` at the fraction `t`. -/
def mix (a b t : α) : α := a * (1.0 - t) + b * t

/-- The part of a number behind the point, in the sign of the number. -/
def fract (x : α) : α := x - trunc x

/-- The distance of a number from the whole number below it. -/
def fractDown (x : α) : α := x - floor x

/-- The sum of numbers, added up from zero. -/
def sum (xs : List α) : α := xs.foldl (· + ·) 0.0

end Scalar

end FieldLang
