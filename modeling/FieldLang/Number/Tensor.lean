/-
Arrays of numbers with any number of axes.

* `Tensor` : a shape and the numbers in it, the last axis running fastest;
* `Tensor.stack?` : arrays of one shape along a new first axis;
* `broadcast` : the shape that two shapes are stretched to;
* `Tensor.applyComponent` : a number computed from several arrays, entry by entry;
* `applyArrays` : a function of several arrays;
* `pointRows` : an array read as a row of points.

Design notes: shapes are aligned at their last axis, and an axis of length one, or one that
is missing, is repeated as often as needed.
-/
import FieldLang.Eval.Field

namespace FieldLang

/-- Numbers in a box with a length along each axis. -/
structure Tensor where
  shape : List Nat
  entries : Array Float
deriving Repr

/-- A shape in round brackets; a comma follows a single length. -/
def shapeText : List Nat → String
  | [n] => "(" ++ toString n ++ ",)"
  | shape => "(" ++ ", ".intercalate (shape.map toString) ++ ")"

/-- Why arrays cannot be used together or as points. -/
inductive ShapeError where
  | mismatch (left right : List Nat)
  | notPoints (shape : List Nat)
  | ragged
deriving Repr, DecidableEq

/-- The wording of an error. -/
def ShapeError.message : ShapeError → String
  | mismatch left right =>
    "operands could not be broadcast together with shapes " ++ shapeText left ++ " "
      ++ shapeText right ++ " "
  | notPoints shape => "Expected an (N, 3) array of points, got shape " ++ shapeText shape
  | ragged => "setting an array element with a sequence. The requested array has an "
      ++ "inhomogeneous shape"

namespace Tensor

/-- A single number. -/
def scalar (x : Float) : Tensor := ⟨[], #[x]⟩

/-- Arrays of one shape, one behind the other. -/
def stack? (ts : List Tensor) : Option Tensor :=
  match ts with
  | [] => some ⟨[0], #[]⟩
  | first :: _ =>
    if ts.all fun t => t.shape == first.shape then
      some ⟨ts.length :: first.shape, ts.foldl (fun acc t => acc ++ t.entries) #[]⟩
    else none

/-- The number of entries of a shape. -/
def volume (shape : List Nat) : Nat := shape.foldl (· * ·) 1

end Tensor

/-- The shape that two shapes, listed from their last axis, are stretched to. -/
def broadcastReversed : List Nat → List Nat → Option (List Nat)
  | [], t => some t
  | s, [] => some s
  | m :: s, n :: t => do
    let rest ← broadcastReversed s t
    if m = n ∨ n = 1 then some (m :: rest)
    else if m = 1 then some (n :: rest)
    else none

/-- The shape that two shapes are stretched to. -/
def broadcast (s t : List Nat) : Except ShapeError (List Nat) :=
  match broadcastReversed s.reverse t.reverse with
  | some shape => .ok shape.reverse
  | none => .error (.mismatch s t)

/-- The shape that several shapes are stretched to. -/
def broadcastAll (shapes : List (List Nat)) : Except ShapeError (List Nat) :=
  shapes.foldlM broadcast []

namespace Tensor

/-- The place of entry `i` of a stretched shape among the entries of a shape, both listed
from their last axis, one step along the shape's last axis being `stride` entries. -/
def sourceIndex : (stretched shape : List Nat) → (stride i : Nat) → Nat
  | n :: stretched, m :: shape, stride, i =>
    (if m = 1 then 0 else i % n * stride) + sourceIndex stretched shape (stride * m) (i / n)
  | _, _, _, _ => 0

/-- Entry `i` of the array stretched to a shape. -/
def stretchedEntry (t : Tensor) (shape : List Nat) (i : Nat) : Float :=
  t.entries.getD (sourceIndex shape.reverse t.shape.reverse 1 i) Double.nan

/-- A component of a result, entry by entry. -/
def applyComponent {n : Nat} (c : Component n) (args : Vector Tensor n) :
    Except ShapeError Tensor := do
  let shape ← broadcastAll (c.uses.map fun j => (args.get j).shape)
  let entry (i : Nat) := c.value (args.map fun t => t.stretchedEntry shape i)
  return ⟨shape, ((List.range (volume shape)).map entry).toArray⟩

/-- The entries along the first axis, as arrays; none for a single number. -/
def rows (t : Tensor) : List Tensor :=
  match t.shape with
  | [] => []
  | n :: shape =>
    let size := volume shape
    (List.range n).map fun i => ⟨shape, t.entries.extract (i * size) ((i + 1) * size)⟩

end Tensor

/-- Why a function of arrays has no value. -/
inductive ArrayCallError where
  | call (error : CallError)
  | shape (error : ShapeError)
deriving Repr, DecidableEq

/-- The wording of an error. -/
def ArrayCallError.message : ArrayCallError → String
  | call e => e.message
  | shape e => e.message

/-- What a function of arrays yields. -/
inductive ArrayResult where
  | value (t : Tensor)
  | tuple (ts : List Tensor)

/-- Whether an array can count octaves. -/
def checkOctaveArray (t : Tensor) : Except CallError Unit :=
  if t.entries.all Float.isFinite then
    if t.entries.isEmpty then .error .noOctaves else .ok ()
  else .error .infiniteOctaves

/-- A function of several arrays, entry by entry. The argument at place `octaves`, if any,
counts octaves. -/
def applyArrays (meaning : (n : Nat) → Except CallError (Meaning n)) (octaves : Option Nat)
    (args : List Tensor) : Except ArrayCallError ArrayResult := do
  let m ← (meaning args.length).mapError .call
  match octaves.bind fun i => args[i]? with
  | some t => (checkOctaveArray t).mapError .call
  | none => pure ()
  let args : Vector Tensor args.length := ⟨args.toArray, by simp⟩
  match m with
  | .scalar c => return .value (← (Tensor.applyComponent c args).mapError .shape)
  | .vector cs =>
    return .tuple (← (cs.mapM fun c => Tensor.applyComponent c args).mapError .shape)

/-- The points in an array of rows of three coordinates. -/
def pointRows (t : Tensor) : Except ShapeError (List Point) :=
  match t.shape with
  | [_, 3] =>
    .ok (t.rows.map fun row =>
      ⟨row.entries.getD 0 Double.nan, row.entries.getD 1 Double.nan, row.entries.getD 2 Double.nan⟩)
  | shape => .error (.notPoints shape)

end FieldLang
