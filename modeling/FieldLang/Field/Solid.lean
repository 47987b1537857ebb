/-
Distances to simple solids, waves, and moving points.

* `corner`, `box2`, `box3`, `torus` : distances;
* `smoothstep`, `triangle`, `fakeSine` : steps and waves;
* `rotX`, `rotY`, `offset` : a point turned by a cosine and a sine, or moved.

Design notes: `box3` squares by products, also for a single point, where a power with the exponent two
may be taken instead. The two differ in the last place at most, if the power is not rounded exactly.
-/
import FieldLang.Number.Scalar

namespace FieldLang.Field

open Scalar

variable {α : Type} [Scalar α]

/-! ### Solids -/

/-- The distance to the quarter of the plane where neither coordinate is positive. -/
def corner (x y : α) : α :=
  if isLess 0.0 x && isLess 0.0 y then hypot x y else maximum x y

/-- The distance to a rectangle with half extents `a` and `b`. -/
def box2 (x y a b : α) : α := corner (magnitude x - a) (magnitude y - b)

/-- The distance to a box with half extents `a`, `b` and `c`. -/
def box3 (x y z a b c : α) : α :=
  let qx := magnitude x - a
  let qy := magnitude y - b
  let qz := magnitude z - c
  let inside := minimum (maximum qx (maximum qy qz)) 0.0
  let ox := maximum qx 0.0
  let oy := maximum qy 0.0
  let oz := maximum qz 0.0
  inside + sqrt (ox * ox + oy * oy + oz * oz)

/-- The distance to a torus around the second axis, with ring radius `r1` and tube radius
`r2`. -/
def torus (x y z r1 r2 : α) : α := hypot (hypot x z - r1) y - r2

/-! ### Steps and waves -/

/-- Zero up to `edge0`, one from `edge1`, and a smooth step between them. -/
def smoothstep (edge0 edge1 x : α) : α :=
  let t := clamp ((x - edge0) / (edge1 - edge0)) 0.0 1.0
  t * t * (3.0 - 2.0 * t)

/-- A triangle wave of period four between minus one and one. -/
def triangle (x : α) : α := magnitude (x - floor (x / 4.0) * 4.0 - 2.0) - 1.0

/-- A polynomial in place of a sine wave. -/
def fakeSine (x : α) : α :=
  magnitude ((x - floor x - 0.5) * 2.0) * x * (6.0 - 4.0 * x) - 1.0

/-! ### Moving points -/

/-- The first coordinate of a point turned by a cosine and a sine. -/
def rotX (x y c s : α) : α := c * x + s * y

/-- The second coordinate of a point turned by a cosine and a sine. -/
def rotY (x y c s : α) : α := c * y - s * x

/-- A coordinate moved `t` times a distance. -/
def offset (x d t : α) : α := x + d * t

end FieldLang.Field
