/-
Programs compiled through the host language.

* `Compiled` : a generated text and the function that it defines;
* `compile` : a program as a function of a point.

Design notes: the host has a fixed limit for brackets that are open at once. Its stack, which a deep
tree without brackets can use up as well, is no part of the model.
-/
import FieldLang.Eval.Field
import FieldLang.Host.Reader
import FieldLang.Host.Run
import FieldLang.Writing.Target

namespace FieldLang

/-- Why a program has no compiled function. -/
inductive CompileError where
  | write (error : WriteError)
  | badText
deriving Repr

/-- The wording of an error. -/
def CompileError.message : CompileError → String
  | write e => e.message
  | badText => "Generated code does not compile"

/-- A generated text and the function that it defines. -/
structure Compiled where
  source : List Char
  function : HostFunction

/-- How many brackets of a text the host keeps track of. -/
def Host.nestingLimit : Nat := 200

/-- The function that a program is compiled to. -/
def compile (angles : Angles) (functionName : String) (program : Stmt) :
    Except CompileError Compiled := do
  let options : Options := { a0 := angles.a0, a1 := angles.a1, functionName }
  let source ← (generate options program).mapError .write
  if Host.nestingLimit < Host.nesting source then .error .badText
  else
    match HostFunction.read? source with
    | some function => return { source, function }
    | none => .error .badText

/-- The number that a compiled function yields at a point, literals being read as written. -/
def Compiled.call (c : Compiled) (p : Point) : Except HostFault Float :=
  c.function.call .asWritten p.x p.y p.z

end FieldLang
