/-
The distance field of a program.

* `Point` : a point in space;
* `evaluate` : the distance at a point;
* `evaluateMany` : the distances at several points, computed at once;
* `traceAt`, `traceMany` : the states of a run.
-/
import FieldLang.Eval.Run

namespace FieldLang

/-- A point in space. -/
structure Point where
  x : Float
  y : Float
  z : Float

/-- A run at one point. -/
abbrev SingleState := State Float Bool

/-- A run at `n` points. -/
abbrev BatchState (n : Nat) := State (Column n Float) (Column n Bool)

/-- The distance at a point. -/
def evaluate (angles : Angles) (program : Stmt) (p : Point) : Except EvalError Float :=
  runAt (σ := Float) (β := Bool) angles program p.x p.y p.z

/-- The coordinates of points, column by column. -/
def columns (points : List Point) :
    Column points.length Float × Column points.length Float × Column points.length Float :=
  (.each ⟨(points.map Point.x).toArray, by simp⟩,
   .each ⟨(points.map Point.y).toArray, by simp⟩,
   .each ⟨(points.map Point.z).toArray, by simp⟩)

/-- The distances at several points. -/
def evaluateMany (angles : Angles) (program : Stmt) (points : List Point) :
    Except EvalError (List Float) := do
  let (x, y, z) := columns points
  let r ← runAt (σ := Column points.length Float) (β := Column points.length Bool) angles program
    x y z
  return r.toList

/-- The states of a run at a point, and the distance. -/
def traceAt (angles : Angles) (program : Stmt) (p : Point) :
    List SingleState × Except EvalError Float :=
  let (states, outcome) := traceAll angles (initialState angles p.x p.y p.z) program.flatten
  (states, outcome >>= State.result)

/-- The states of a run at several points, and the distances. -/
def traceMany (angles : Angles) (program : Stmt) (points : List Point) :
    List (BatchState points.length) × Except EvalError (List Float) :=
  let (x, y, z) := columns points
  let (states, outcome) := traceAll angles (initialState angles x y z) program.flatten
  (states, outcome >>= fun s => Column.toList <$> s.result)

end FieldLang
