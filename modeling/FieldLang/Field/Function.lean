/-
What the builtin functions compute.

* `Component`, `Meaning` : a number computed from the arguments, and a result of one or
  several such numbers;
* `Component.ofAll`, `Component.argument`, `Component.ofTwo`, `Component.ofThree`,
  `Component.ofMinor` : numbers computed from every argument, and from a few of them;
* `CallError` : argument counts that a function has no meaning for, and octave counts that
  are not finite;
* `Builtin.hostMeaning` : the meaning of a function in generated code, where the two turns
  take their angle as an argument;
* `Builtin.meaning` : its meaning in programs, where they use the angle parameters.

Design notes: a component names the arguments that it depends on, because the shape of a
result over several points is decided by those alone.
-/
import FieldLang.Field.Blend
import FieldLang.Field.Noise
import FieldLang.Field.Solid
import FieldLang.Number.Double
import FieldLang.Syntax.Builtin

namespace FieldLang

/-- A number computed from `n` arguments. -/
structure Component (n : Nat) where
  /-- The arguments that it depends on. -/
  uses : List (Fin n)
  value : Vector Float n → Float
  /-- It does not depend on any other argument. -/
  depends : ∀ v w : Vector Float n, (∀ j ∈ uses, v.get j = w.get j) → value v = value w

namespace Component

variable {n : Nat}

/-- A number that depends on every argument. -/
def ofAll (value : Vector Float n → Float) : Component n where
  uses := List.finRange n
  value := value
  depends v w h := by
    have same : v = w := Vector.ext fun i hi => h ⟨i, hi⟩ (List.mem_finRange _)
    rw [same]

/-- One of the arguments itself. -/
def argument (i : Fin n) : Component n where
  uses := [i]
  value v := v.get i
  depends v w h := h i (by simp)

/-- A function of two arguments. -/
def ofTwo (f : Float → Float → Float) (i j : Fin n) : Component n where
  uses := [i, j]
  value v := f (v.get i) (v.get j)
  depends v w h := by rw [h i (by simp), h j (by simp)]

/-- A function of three arguments. -/
def ofThree (f : Float → Float → Float → Float) (i j k : Fin n) : Component n where
  uses := [i, j, k]
  value v := f (v.get i) (v.get j) (v.get k)
  depends v w h := by rw [h i (by simp), h j (by simp), h k (by simp)]

/-- A two by two determinant of arguments, the main diagonal first. -/
def ofMinor (i j k l : Fin n) : Component n where
  uses := [i, j, k, l]
  value v := v.get i * v.get j - v.get k * v.get l
  depends v w h := by rw [h i (by simp), h j (by simp), h k (by simp), h l (by simp)]

end Component

/-- What a function yields for `n` arguments. -/
inductive Meaning (n : Nat) where
  | scalar (c : Component n)
  | vector (cs : List (Component n))

/-- Why a call has no value. -/
inductive CallError where
  | vectorSize (count : Nat)
  | offsetCount (count : Nat)
  | noDistance
  | noRadius
  | infiniteOctaves
  | noOctaves
  | wrongCount (name : String) (count : Nat)
deriving Repr, DecidableEq

/-- The wording of an error. -/
def CallError.message : CallError → String
  | vectorSize n => "Vectors have 2 or 3 components, got " ++ toString n
  | offsetCount n => "add_mul takes 4 to 7 arguments, got " ++ toString n
  | noDistance => "Combinator needs at least one value"
  | noRadius => "not enough values to unpack (expected at least 1, got 0)"
  | infiniteOctaves => "value_noise octave count must be finite"
  | noOctaves => "zero-size array to reduction operation maximum which has no identity"
  | wrongCount name n => name ++ "() does not take " ++ toString n ++ " arguments"

namespace Meaning

variable {n : Nat}

/-- One number that depends on every argument. -/
def one (value : Vector Float n → Float) : Meaning n := .scalar (.ofAll value)

/-- Two numbers that depend on every argument. -/
def two (first second : Vector Float n → Float) : Meaning n :=
  .vector [.ofAll first, .ofAll second]

end Meaning

namespace Field

/-- The length of a vector with any number of components. -/
def length (xs : List Float) : Float := (Scalar.sum (xs.map fun x => x * x)).sqrt

/-- The products of the first half of some numbers with the second half, pair by pair. -/
def halves (f : Float → Float → Float) (xs : List Float) : List Float :=
  let half := xs.length / 2
  List.zipWith f (xs.take half) (xs.drop half)

/-- A full turn in radians. -/
def fullTurn : Float := 6.283185307179586

/-- The first coordinate of a point turned counter-clockwise by a number of turns. -/
def turnX (x y turns : Float) : Float :=
  let angle := turns * fullTurn
  angle.cos * x - angle.sin * y

/-- The second coordinate of a point turned counter-clockwise by a number of turns. -/
def turnY (x y turns : Float) : Float :=
  let angle := turns * fullTurn
  angle.sin * x + angle.cos * y

end Field

open FieldLang.Field

namespace Meaning

/-- The meaning of a function of one argument. -/
def unary (name : String) (f : Float → Float) : (n : Nat) → Except CallError (Meaning n)
  | 1 => .ok (one fun v => f v[0])
  | n => .error (.wrongCount name n)

/-- The meaning of a function of two arguments. -/
def binary (name : String) (f : Float → Float → Float) : (n : Nat) → Except CallError (Meaning n)
  | 2 => .ok (one fun v => f v[0] v[1])
  | n => .error (.wrongCount name n)

/-- The meaning of a function of three arguments. -/
def ternary (name : String) (f : Float → Float → Float → Float) :
    (n : Nat) → Except CallError (Meaning n)
  | 3 => .ok (one fun v => f v[0] v[1] v[2])
  | n => .error (.wrongCount name n)

/-- The meaning of a function of four arguments. -/
def quaternary (name : String) (f : Float → Float → Float → Float → Float) :
    (n : Nat) → Except CallError (Meaning n)
  | 4 => .ok (one fun v => f v[0] v[1] v[2] v[3])
  | n => .error (.wrongCount name n)

/-- The meaning of a turn by a number of turns. -/
def turn (name : String) : (n : Nat) → Except CallError (Meaning n)
  | 3 => .ok (two (fun v => turnX v[0] v[1] v[2]) fun v => turnY v[0] v[1] v[2])
  | n => .error (.wrongCount name n)

/-- The meaning of a combinator that folds a row of distances. -/
def folded (f : Float → List Float → Float) : (n : Nat) → Except CallError (Meaning n)
  | 0 => .error .noDistance
  | _ + 1 => .ok (one fun v => f v[0] v.toList.tail)

/-- The meaning of a combinator that folds a row of distances with a radius behind them. A sole
distance is handed back as it is, whatever the radius, and so is a radius without distances. -/
def blended (f : Float → List Float → Float → Float) : (n : Nat) → Except CallError (Meaning n)
  | 0 => .error .noRadius
  | 1 => .ok (.scalar (.argument 0))
  | 2 => .ok (.scalar (.argument 0))
  | n + 3 => .ok (one fun v => f v[0] v.toList.tail.dropLast v[n + 2])

/-- The meaning of a rectangle, the second half extent being that of the first unless given. -/
def rectangle : (n : Nat) → Except CallError (Meaning n)
  | 3 => .ok (one fun v => box2 v[0] v[1] v[2] v[2])
  | 4 => .ok (one fun v => box2 v[0] v[1] v[2] v[3])
  | n => .error (.wrongCount "box2" n)

/-- The meaning of a box, half extents that are not given being those of the first. -/
def box : (n : Nat) → Except CallError (Meaning n)
  | 4 => .ok (one fun v => box3 v[0] v[1] v[2] v[3] v[3] v[3])
  | 5 => .ok (one fun v => box3 v[0] v[1] v[2] v[3] v[4] v[3])
  | 6 => .ok (one fun v => box3 v[0] v[1] v[2] v[3] v[4] v[5])
  | n => .error (.wrongCount "box3" n)

/-- The meaning of noise in space. -/
def spaceNoise : (n : Nat) → Except CallError (Meaning n)
  | 5 => .ok (one fun v => valueNoise v[0] v[1] v[2] v[3] v[4] (Float.ofNat defaultOctaves))
  | 6 => .ok (one fun v => valueNoise v[0] v[1] v[2] v[3] v[4] v[5])
  | n => .error (.wrongCount "value_noise" n)

/-- The meaning of noise, in the plane with one octave or in space. -/
def noise : (n : Nat) → Except CallError (Meaning n)
  | 4 => .ok (one fun v => valueNoise v[0] v[1] 0 v[2] v[3] 1)
  | n => spaceNoise n

/-- The meaning of a hash in the plane or in space. -/
def hashed : (n : Nat) → Except CallError (Meaning n)
  | 2 => .ok (one fun v => hash3 v[0] v[1] 0)
  | 3 => .ok (one fun v => hash3 v[0] v[1] v[2])
  | n => .error (.wrongCount "hash" n)

/-- The meaning of moving a point along a direction, once unless a factor is given. -/
def moved : (n : Nat) → Except CallError (Meaning n)
  | 4 => .ok (.vector [.ofTwo (offset · · 1.0) 0 2, .ofTwo (offset · · 1.0) 1 3])
  | 5 => .ok (.vector [.ofThree offset 0 2 4, .ofThree offset 1 3 4])
  | 6 => .ok (.vector
      [.ofTwo (offset · · 1.0) 0 3, .ofTwo (offset · · 1.0) 1 4, .ofTwo (offset · · 1.0) 2 5])
  | 7 => .ok (.vector [.ofThree offset 0 3 6, .ofThree offset 1 4 6, .ofThree offset 2 5 6])
  | n => .error (.offsetCount n)

/-- The meaning of the cross product. -/
def crossed : (n : Nat) → Except CallError (Meaning n)
  | 6 => .ok (.vector [.ofMinor 1 5 2 4, .ofMinor 2 3 0 5, .ofMinor 0 4 1 3])
  | n => .error (.wrongCount "cross" n)

/-- The meaning of a point turned by a cosine and a sine. -/
def rotated : (n : Nat) → Except CallError (Meaning n)
  | 4 => .ok (two (fun v => rotX v[0] v[1] v[2] v[3]) fun v => rotY v[0] v[1] v[2] v[3])
  | n => .error (.wrongCount "rot" n)

/-- The meaning of a torus. -/
def ring : (n : Nat) → Except CallError (Meaning n)
  | 5 => .ok (one fun v => torus v[0] v[1] v[2] v[3] v[4])
  | n => .error (.wrongCount "torus" n)

end Meaning

open Meaning in
/-- The meaning of a function in generated code. -/
def Builtin.hostMeaning (f : Builtin) (n : Nat) : Except CallError (Meaning n) :=
  match f with
  | .sin => Meaning.unary f.name Float.sin n
  | .cos => Meaning.unary f.name Float.cos n
  | .tan => Meaning.unary f.name Float.tan n
  | .asin => Meaning.unary f.name Float.asin n
  | .acos => Meaning.unary f.name Float.acos n
  | .atan => Meaning.unary f.name Float.atan n
  | .atan2 => Meaning.binary f.name Float.atan2 n
  | .sinh => Meaning.unary f.name Float.sinh n
  | .cosh => Meaning.unary f.name Float.cosh n
  | .tanh => Meaning.unary f.name Float.tanh n
  | .asinh => Meaning.unary f.name Float.asinh n
  | .acosh => Meaning.unary f.name Float.acosh n
  | .atanh => Meaning.unary f.name Float.atanh n
  | .exp => Meaning.unary f.name Float.exp n
  | .exp2 => Meaning.unary f.name Float.exp2 n
  | .log => Meaning.unary f.name Float.log n
  | .log2 => Meaning.unary f.name Float.log2 n
  | .pow => Meaning.binary f.name Float.pow n
  | .sqrt => Meaning.unary f.name Float.sqrt n
  | .abs => Meaning.unary f.name Float.abs n
  | .sign => Meaning.unary f.name Double.sign n
  | .floor => Meaning.unary f.name Float.floor n
  | .ceil => Meaning.unary f.name Float.ceil n
  | .trunc => Meaning.unary f.name Double.trunc n
  | .fract => Meaning.unary f.name Scalar.fract n
  | .round => Meaning.unary f.name Double.roundHalfAway n
  | .mod => Meaning.binary f.name Double.modulo n
  | .min => Meaning.binary f.name Double.minimum n
  | .max => Meaning.binary f.name Double.maximum n
  | .clamp => Meaning.ternary f.name Scalar.clamp n
  | .mix => Meaning.ternary f.name Scalar.mix n
  | .smoothstep => Meaning.ternary f.name Field.smoothstep n
  | .length => .ok (one fun v => Field.length v.toList)
  | .distance => .ok (one fun v => Field.length (halves (· - ·) v.toList))
  | .dot => .ok (one fun v => Scalar.sum (halves (· * ·) v.toList))
  | .cross => crossed n
  | .normalize =>
    .ok (.vector ((List.finRange n).map fun i => .ofAll fun v => v.get i / Field.length v.toList))
  | .union => folded Field.union n
  | .intersect => folded Field.intersect n
  | .roundMin => blended Field.roundMin n
  | .roundMax => blended Field.roundMax n
  | .torus => ring n
  | .box2 => rectangle n
  | .box3 => box n
  | .valueNoise => noise n
  | .rot0 => turn f.name n
  | .rot1 => turn f.name n
  | .rot => rotated n
  | .triangle => Meaning.unary f.name Field.triangle n
  | .corner => Meaning.binary f.name Field.corner n
  | .hash => hashed n
  | .addMul => moved n
  | .fakeSine => Meaning.unary f.name Field.fakeSine n
  | .smoothAbs => Meaning.binary f.name Field.smoothAbs n
  | .polySmoothAbs => Meaning.binary f.name Field.polySmoothAbs n
  | .smoothClamp => Meaning.quaternary f.name Field.smoothClamp n
  | .polySmoothClamp => Meaning.quaternary f.name Field.polySmoothClamp n

/-- The angle parameters of a run. -/
structure Angles where
  a0 : Float := 0
  a1 : Float := 0

/-- The meaning of a turn by a fixed number of turns. -/
def Meaning.turnBy (name : String) (turns : Float) : (n : Nat) → Except CallError (Meaning n)
  | 2 => .ok (two (fun v => turnX v[0] v[1] turns) fun v => turnY v[0] v[1] turns)
  | n => .error (.wrongCount name n)

/-- The meaning of a function in a program. -/
def Builtin.meaning (angles : Angles) (f : Builtin) (n : Nat) : Except CallError (Meaning n) :=
  match f with
  | .rot0 => Meaning.turnBy f.name angles.a0 n
  | .rot1 => Meaning.turnBy f.name angles.a1 n
  | f => f.hostMeaning n

/-- The place of the argument that counts octaves. -/
def Builtin.octaveArgument : (f : Builtin) → (n : Nat) → Option (Fin n)
  | .valueNoise, 6 => some 5
  | _, _ => none

end FieldLang
