/-
Programs written for a target.

* `Target` : the host language, or the language itself;
* `Options` : how a program is written;
* `generate` : the text of a program for a target.
-/
import FieldLang.Writing.Canonical
import FieldLang.Writing.Host

namespace FieldLang

/-- What a program is written for. -/
inductive Target where
  | python
  | dsl
deriving Repr, DecidableEq

/-- The name of a target. -/
def Target.name : Target → String
  | .python => "python"
  | .dsl => "dsl"

/-- The target with a given name. -/
def Target.ofName (name : String) : Written Target :=
  if name = "python" then .ok .python
  else if name = "dsl" then .ok .dsl
  else .error (.unknownTarget name)

/-- The name of a generated function unless another one is asked for. -/
def defaultFunctionName : String := "signed_distance_function"

/-- The width of a text unless another one is asked for. -/
def defaultWidth : Int := 100

/-- The line that makes a generated function a module of its own. -/
def moduleHeader : String := "from sdfscript.runtime import *  # noqa: F403\n\n\n"

/-- How a program is written. -/
structure Options where
  width : Int := defaultWidth
  a0 : Float := 0
  a1 : Float := 0
  target : String := "python"
  functionName : String := defaultFunctionName
  /-- Whether the text can be saved as a module. -/
  standalone : Bool := false

/-- The text of a program for the target that the options name. -/
def generate (options : Options) (s : Stmt) : Written (List Char) := do
  match ← Target.ofName options.target with
  | .dsl => unparse options.width s
  | .python =>
    let writer : HostWriter := ⟨options.functionName, options.a0, options.a1⟩
    let doc ← writer.document s
    let text ← (doc.render options.width).mapError .badWidth
    let text := text ++ ['\n']
    return if options.standalone then moduleHeader.toList ++ text else text

end FieldLang
