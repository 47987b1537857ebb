/-
Running functions of the host language.

* `Literals` : how literals are read;
* `HostFrame` : the names of a running function and what they are bound to;
* `evalHost`, `runLines` : expressions and lines;
* `HostFunction.call` : the number that a function yields at a point.

Design notes: a logical operator yields one of its operands, and a row of comparisons stops
at the first that fails. A name that the function binds anywhere cannot be read before.
-/
import FieldLang.Host.Call
import FieldLang.Host.Tree

namespace FieldLang

/-- How literals are read: whole numbers as they are written, or all as doubles of the array
library. -/
inductive Literals where
  | asWritten
  | asDoubles
deriving Repr, DecidableEq

/-- The value of a literal without a point. -/
def Literals.whole : Literals → Nat → HostValue
  | asWritten, n => .whole .plain n
  | asDoubles, n => .real .array (Decimal.ofRatio n 1 0)

/-- The value of any other literal. -/
def Literals.real : Literals → Float → HostValue
  | asWritten, x => .real .plain x
  | asDoubles, x => .real .array x

/-- A running function: its name, and its own names with their values, if they have any. -/
structure HostFrame where
  function : String
  locals : List (String × Option HostValue)

namespace HostFrame

/-- The value of a name. -/
def get (literals : Literals) (frame : HostFrame) (name : String) : Except HostFault HostValue :=
  match frame.locals.lookup name with
  | some (some v) => .ok v
  | some none => .error (.unassigned name)
  | none =>
    if name = "inf" then .ok (literals.real Double.infinity)
    else if name = "nan" then .ok (literals.real Double.nan)
    else if name = frame.function then .ok .function
    else .error (.undefined name)

/-- The frame with a name of its function bound to a value. -/
def set (frame : HostFrame) (name : String) (v : HostValue) : HostFrame :=
  { frame with locals := (name, some v) :: frame.locals.filter fun entry => entry.1 != name }

/-- The function that a name calls. -/
def callee (frame : HostFrame) (name : String) : Except HostFault Builtin :=
  match frame.locals.lookup name with
  | some (some v) => .error (.notCallable v.typeName)
  | some none => .error (.unassigned name)
  | none =>
    match Builtin.all.find? fun f => f.name == name with
    | some f => .ok f
    | none => .error (.undefined name)

end HostFrame

/-- The arguments that a function is meant for: a combinator takes them as one row. -/
def spreadArguments (f : Builtin) (args : List HostValue) : Except HostFault (List HostValue) :=
  match f with
  | .union | .intersect | .roundMin | .roundMax =>
    match args with
    | [.list items] | [.tuple items] => .ok items
    | [v] => .error (.notIterable v.typeName)
    | args => .error (.call (.wrongCount f.name args.length))
  | _ => .ok args

variable (literals : Literals)

mutual

/-- The value of an expression, and the frame that it leaves. -/
def evalHost (frame : HostFrame) : HostExpr → Except HostFault (HostValue × HostFrame)
  | .whole n => .ok (literals.whole n, frame)
  | .real x => .ok (literals.real x, frame)
  | .name name => do return (← frame.get literals name, frame)
  | .negate operand => do
    let (v, frame) ← evalHost frame operand
    return (← v.neg, frame)
  | .binary .or lhs rhs => do
    let (v, frame) ← evalHost frame lhs
    if v.isTrue then return (v, frame) else evalHost frame rhs
  | .binary .and lhs rhs => do
    let (v, frame) ← evalHost frame lhs
    if v.isTrue then evalHost frame rhs else return (v, frame)
  | .binary op lhs rhs => do
    let (v, frame) ← evalHost frame lhs
    let (w, frame) ← evalHost frame rhs
    return (← v.arith op w, frame)
  | .compare operands ops => evalRow frame none .nothing ops operands
  | .conditional ifTrue condition ifFalse => do
    let (c, frame) ← evalHost frame condition
    if c.isTrue then evalHost frame ifTrue else evalHost frame ifFalse
  | .call name args => do
    let f ← frame.callee name
    let (vs, frame) ← evalHostAll frame args
    return (← callBuiltin f (← spreadArguments f vs), frame)
  | .list items => do
    let (vs, frame) ← evalHostAll frame items
    return (.list vs, frame)
  | .tuple items => do
    let (vs, frame) ← evalHostAll frame items
    return (.tuple vs, frame)
  | .bind name value => do
    let (v, frame) ← evalHost frame value
    return (v, frame.set name v)

/-- The values of a row of expressions. -/
def evalHostAll (frame : HostFrame) :
    List HostExpr → Except HostFault (List HostValue × HostFrame)
  | [] => .ok ([], frame)
  | e :: es => do
    let (v, frame) ← evalHost frame e
    let (vs, frame) ← evalHostAll frame es
    return (v :: vs, frame)

/-- The value of a row of comparisons behind the operand `previous`, `result` being that of
the comparison before it. -/
def evalRow (frame : HostFrame) (previous : Option HostValue) (result : HostValue)
    (ops : List BinOp) : List HostExpr → Except HostFault (HostValue × HostFrame)
  | [] => .ok (result, frame)
  | e :: es => do
    let (v, frame) ← evalHost frame e
    match previous, ops with
    | none, ops => evalRow frame (some v) v ops es
    | some _, [] => return (result, frame)
    | some p, op :: ops => do
      let r ← p.compare op v
      if r.isTrue then evalRow frame (some v) r ops es else return (r, frame)

end

/-! ### Lines -/

/-- Binds names to the items of a value. -/
def unpack (frame : HostFrame) (names : List String) (v : HostValue) :
    Except HostFault HostFrame :=
  match v with
  | .tuple items | .list items =>
    if items.length < names.length then .error (.tooFewItems names.length items.length)
    else if names.length < items.length then .error (.tooManyItems names.length)
    else .ok ((names.zip items).foldl (fun frame (name, item) => frame.set name item) frame)
  | v => .error (.notIterable v.typeName)

/-- Runs lines up to the first that returns a value; the end returns nothing. -/
def runLines (frame : HostFrame) : List HostStmt → Except HostFault HostValue
  | [] => .ok .nothing
  | .return none :: _ => .ok .nothing
  | .return (some value) :: _ => do return (← evalHost literals frame value).1
  | .expr value :: rest => do
    let (_, frame) ← evalHost literals frame value
    runLines frame rest
  | .assign (.name name) value :: rest => do
    let (v, frame) ← evalHost literals frame value
    runLines (frame.set name v) rest
  | .assign (.names names) value :: rest => do
    let (v, frame) ← evalHost literals frame value
    runLines (← unpack frame names v) rest

/-- The frame at the beginning of a call with some arguments. -/
def HostFunction.enter (f : HostFunction) (args : List HostValue) : HostFrame :=
  let frame : HostFrame := ⟨f.name, f.locals.map fun name => (name, none)⟩
  (f.parameters.zip args).foldl (fun frame (name, v) => frame.set name v) frame

/-- The number that a function yields at the point `(x, y, z)`. -/
def HostFunction.call (f : HostFunction) (x y z : Float) : Except HostFault Float := do
  let args := [x, y, z].map (HostValue.real .array)
  match ← runLines literals (f.enter args) f.body with
  | .tuple items => .error (.vectorResult items.length)
  | v => v.toFloat

end FieldLang
