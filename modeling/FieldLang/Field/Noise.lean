/-
Hashing lattice points, and noise.

* `hash3` : a value between zero and one that looks random, from a lattice point;
* `latticeNoise` : such values at the corners of a cell, mixed smoothly;
* `valueNoise` : octaves of that noise added up.

Design notes: each octave doubles the frequency, times 1.015, and its weight is the sum of
`1 / (2 * k)` over the octaves so far. The count of octaves is a number whose digits behind
the point are dropped; counts above sixteen are read as sixteen.
-/
import FieldLang.Number.Scalar

namespace FieldLang.Field

open Scalar

variable {α : Type} [Scalar α]

/-- A coordinate scrambled into the range from zero to seventeen. -/
def scramble (x : α) : α := fractDown (x * 0.3183099 + 0.1) * 17.0

/-- A value between zero and one for a lattice point. -/
def hash3 (x y z : α) : α :=
  let px := scramble x
  let py := scramble y
  let pz := scramble z
  fractDown (px * py * pz * (px + py + pz))

/-- A smooth weight for a fraction between zero and one. -/
def weight (f : α) : α := f * f * (3.0 - 2.0 * f)

/-- Noise between minus one and one. -/
def latticeNoise (x y z : α) : α :=
  let ix := floor x
  let iy := floor y
  let iz := floor z
  let ux := weight (x - ix)
  let uy := weight (y - iy)
  let uz := weight (z - iz)
  let h (dx dy dz : α) := hash3 (ix + dx) (iy + dy) (iz + dz)
  let near :=
    mix (mix (h 0.0 0.0 0.0) (h 1.0 0.0 0.0) ux) (mix (h 0.0 1.0 0.0) (h 1.0 1.0 0.0) ux) uy
  let far :=
    mix (mix (h 0.0 0.0 1.0) (h 1.0 0.0 1.0) ux) (mix (h 0.0 1.0 1.0) (h 1.0 1.0 1.0) ux) uy
  mix near far uz * 2.0 - 1.0

/-- The number of octaves unless another one is asked for. -/
def defaultOctaves : Nat := 4

/-- The greatest number of octaves. -/
def maxOctaves : Nat := 16

/-- The first `n` octaves of noise at a point, the weights adding up from `amplitude`, added
to `total`. The next octave is number `octave`. -/
def octaves (count : α) : Nat → Nat → α → α → α → α → α → α
  | 0, _, _, _, _, _, total => total
  | n + 1, octave, amplitude, px, py, pz, total =>
    let amplitude := amplitude + 1.0 / (2.0 * ofNat octave)
    let px := px * 2.03
    let py := py * 2.03
    let pz := pz * 2.03
    let total :=
      if isAtMost (ofNat octave) (trunc count) then total + amplitude * latticeNoise px py pz
      else total
    octaves count n (octave + 1) amplitude px py pz total

/-- Noise at the point `(x, y, z) * scale + offset`, with `count` octaves. -/
def valueNoise (x y z scale offset count : α) : α :=
  octaves count maxOctaves 1 0.0 (x * scale + offset) (y * scale + offset) (z * scale + offset) 0.0

end FieldLang.Field
