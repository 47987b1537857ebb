/-
Combining distances.

* `union`, `intersect` : the sharp combinations, minimum and maximum;
* `smoothMin`, `smoothMax` : of two distances, with a round blend of a given radius;
* `roundMin`, `roundMax` : the same for any number of distances;
* `smoothAbs`, `polySmoothAbs`, `smoothClamp`, `polySmoothClamp` : magnitude and clamping
  with a rounded corner.

Design notes: a row of distances is folded from the left, so every blend meets the result
of those before it.
-/
import FieldLang.Number.Scalar

namespace FieldLang.Field

open Scalar

variable {α : Type} [Scalar α]

/-- The least distance of a row that begins with `first`. -/
def union (first : α) (rest : List α) : α := rest.foldl minimum first

/-- The greatest distance of a row that begins with `first`. -/
def intersect (first : α) (rest : List α) : α := rest.foldl maximum first

/-- The lesser of two distances, with a round fillet where both are below the radius. -/
def smoothMin (a b r : α) : α :=
  if isLess a r && isLess b r then r - hypot (r - a) (r - b) else minimum a b

/-- The greater of two distances, with a round fillet. -/
def smoothMax (a b r : α) : α := -smoothMin (-a) (-b) r

/-- The least distance of a row, every step with a round fillet. -/
def roundMin (first : α) (rest : List α) (r : α) : α :=
  rest.foldl (fun a b => smoothMin a b r) first

/-- The greatest distance of a row, every step with a round fillet. -/
def roundMax (first : α) (rest : List α) (r : α) : α :=
  rest.foldl (fun a b => smoothMax a b r) first

/-- The magnitude of `x`, rounded near zero by the parameter `p`. -/
def smoothAbs (x p : α) : α := sqrt (x * x + p)

/-- A polynomial in place of the magnitude between `-m` and `m`, and `x` elsewhere. -/
def polySmoothAbs (x m : α) : α :=
  if isLess m (magnitude x) then x else (2.0 - x / m) * x * x / m

/-- Clamping with rounded corners. -/
def smoothClamp (x p lo hi : α) : α := (smoothAbs (x - lo) p - smoothAbs (x - hi) p + lo + hi) / 2.0

/-- Clamping with polynomial corners. -/
def polySmoothClamp (x p lo hi : α) : α :=
  (polySmoothAbs (x - lo) p - polySmoothAbs (x - hi) p + lo + hi) / 2.0

end FieldLang.Field
