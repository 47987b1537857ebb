/-
Numbers that are computed exactly.

* `Roots` : square roots and lengths, which the operations of a field do not give;
* `truncate` : the whole number that drops the digits behind the point;
* the instance of `Scalar` for ordered fields whose numbers have whole parts;
* `mix_exact` : a mixture in the operations of the field.

Design notes: the rationals and the reals are such fields. What is proved for them holds of shapes
and noise up to the rounding of doubles, and says nothing about the last digits of a double. Roots
are a parameter: nothing holds of them but what a theorem asks for.
-/
import Mathlib.Algebra.Order.Field.Basic
import Mathlib.Algebra.Order.Floor.Ring
import Mathlib.Tactic.NormNum
import FieldLang.Number.Scalar

namespace FieldLang

/-- Square roots, and lengths of vectors in the plane. -/
class Roots (K : Type) where
  sqrt : K → K
  hypot : K → K → K

section

variable {K : Type} [Field K] [LinearOrder K] [FloorRing K]

/-- The whole number next to `x` in the direction of zero. -/
def truncate (x : K) : ℤ := if x < 0 then ⌈x⌉ else ⌊x⌋

variable [Roots K]

/-- An ordered field computes exactly. -/
instance exactScalar : Scalar K where
  ofNat n := n
  floor x := ⌊x⌋
  trunc x := truncate x
  magnitude x := |x|
  sqrt := Roots.sqrt
  hypot := Roots.hypot
  minimum := min
  maximum := max
  isLess x y := x < y
  isAtMost x y := x ≤ y

theorem mix_exact (a b t : K) : Scalar.mix a b t = a * (1 - t) + b * t := by
  have hone : (1.0 : K) = 1 := by norm_num
  calc Scalar.mix a b t = a * (1.0 - t) + b * t := rfl
    _ = a * (1 - t) + b * t := by rw [hone]

end

end FieldLang
