/-
Values of programs, and what they are carried by.

* `Kind`, `Value` : a number, a truth value, or a vector of two or three numbers;
* `Verdict` : whether a condition holds everywhere, nowhere, here and there, or for want of
  points both everywhere and nowhere;
* `Carrier` : what numbers and truth values are during a run;
* the carriers for one point and for several points at once.

Design notes: the evaluator is written once, for any carrier. At a single point numbers are
doubles; at `n` points they are columns of doubles.
-/
import FieldLang.Field.Function
import FieldLang.Number.Column

namespace FieldLang

/-- The kinds of values. -/
inductive Kind where
  | scalar | boolean | vec2 | vec3
deriving Repr, DecidableEq

/-- The name of a kind. -/
def Kind.name : Kind → String
  | scalar => "scalar"
  | boolean => "boolean"
  | vec2 => "vec2"
  | vec3 => "vec3"

/-- Whether values of the kind have several components. -/
def Kind.isVector : Kind → Bool
  | vec2 | vec3 => true
  | scalar | boolean => false

/-- A value whose numbers are `σ` and whose truth values are `β`. -/
inductive Value (σ β : Type) where
  | scalar (x : σ)
  | boolean (b : β)
  | vec2 (x y : σ)
  | vec3 (x y z : σ)

namespace Value

variable {σ β : Type}

/-- The kind of a value. -/
def kind : Value σ β → Kind
  | scalar _ => .scalar
  | boolean _ => .boolean
  | vec2 _ _ => .vec2
  | vec3 _ _ _ => .vec3

/-- The components of a vector. -/
def axes? : Value σ β → Option (List σ)
  | vec2 x y => some [x, y]
  | vec3 x y z => some [x, y, z]
  | scalar _ | boolean _ => none

/-- The vector with given components; there must be two or three. -/
def ofAxes : List σ → Except CallError (Value σ β)
  | [x, y] => .ok (vec2 x y)
  | [x, y, z] => .ok (vec3 x y z)
  | xs => .error (.vectorSize xs.length)

end Value

/-- Where a condition holds. -/
inductive Verdict where
  | always | never | mixed
  /-- There are no points, so it holds everywhere and nowhere. -/
  | vacuous
deriving Repr, DecidableEq

/-- Where the opposite of a condition holds. -/
def Verdict.opposite : Verdict → Verdict
  | always => never
  | never => always
  | mixed => mixed
  | vacuous => vacuous

/-- What numbers `σ` and truth values `β` are during a run. -/
class Carrier (σ β : Type) where
  /-- The same number everywhere. -/
  const : Float → σ
  map : (Float → Float) → σ → σ
  zip : (Float → Float → Float) → σ → σ → σ
  compare : (Float → Float → Bool) → σ → σ → β
  zipTruth : (Bool → Bool → Bool) → β → β → β
  verdict : β → Verdict
  /-- The first number where the condition holds, and the second elsewhere. -/
  choose : β → σ → σ → σ
  /-- The first truth value where the condition holds, and the second elsewhere. -/
  chooseTruth : β → β → β → β
  opposite : β → β
  apply : {n : Nat} → Component n → Vector σ n → σ
  /-- Whether a number can count octaves. -/
  checkOctaves : σ → Except CallError Unit

/-- Whether a number can count octaves at a single point. -/
def checkOctavesAt (count : Float) : Except CallError Unit :=
  if count.isFinite then .ok () else .error .infiniteOctaves

/-- At a single point. -/
instance : Carrier Float Bool where
  const x := x
  map f := f
  zip f := f
  compare f := f
  zipTruth f := f
  verdict b := if b then .always else .never
  choose b x y := if b then x else y
  chooseTruth b x y := if b then x else y
  opposite := not
  apply c args := c.value args
  checkOctaves := checkOctavesAt

namespace Column

variable {k : Nat}

/-- Where a condition holds among the points. -/
def verdict : Column k Bool → Verdict
  | const b => if b then .always else .never
  | each values =>
    if k = 0 then .vacuous
    else if values.toList.all id then .always
    else if values.toList.any id then .mixed
    else .never

/-- A component of a result at each point; constant if the arguments are that it depends on. -/
def apply {n : Nat} (c : Component n) (args : Vector (Column k Float) n) : Column k Float :=
  if c.uses.all fun j => (args.get j).isConst then
    const (c.value (args.map fun a => match a with | const x => x | each _ => 0))
  else each (Vector.ofFn fun i => c.value (args.map fun a => a.get i))

/-- Octave counts must be finite at every point, and there must be a greatest one. -/
def checkOctaves : Column k Float → Except CallError Unit
  | const a => checkOctavesAt a
  | each values =>
    if values.toList.all Float.isFinite then
      if k = 0 then .error .noOctaves else .ok ()
    else .error .infiniteOctaves

end Column

/-- At `k` points at once. -/
instance (k : Nat) : Carrier (Column k Float) (Column k Bool) where
  const := .const
  map := Column.map
  zip := Column.zipWith
  compare := Column.zipWith
  zipTruth := Column.zipWith
  verdict := Column.verdict
  choose := Column.choose
  chooseTruth := Column.choose
  opposite := Column.map not
  apply := Column.apply
  checkOctaves := Column.checkOctaves

end FieldLang
