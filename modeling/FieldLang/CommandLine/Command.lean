/-
Commands.

* `Command` : what is to be done with an input file;
* `Invocation` : a command, its input and how it treats warnings;
* `Request` : what a row of arguments can ask for.

Design notes: a command holds the values that its options were converted to. Whether they go together is
for the command to find out.
-/
import FieldLang.CommandLine.Path
import FieldLang.Eval.Field
import FieldLang.Writing.Target

namespace FieldLang

/-- How a program is to be written, where this differs from the scene. -/
structure WritingOverrides where
  target : Option Target := none
  width : Option Int := none
  functionName : Option String := none
  a0 : Option Float := none
  a1 : Option Float := none
  output : Option Path := none

/-- What is to be done with an input file. -/
inductive Command where
  | expand
  | tokens
  | parse
  | eval (points : List Point) (a0 a1 : Option Float)
  | codegen (overrides : WritingOverrides)
  /-- The formatted program is printed or written, to the input itself or to another file, or it is
  compared with the input. -/
  | format (width : Int) (output : Option Path) (inPlace compare : Bool)
  | check

/-- A command with its input. -/
structure Invocation where
  command : Command
  /-- The input as it was given. -/
  input : String
  promote : Option String := none
  suppress : Option String := none

/-- The path of the input. -/
def Invocation.path (inv : Invocation) : Path := Path.ofText inv.input

/-- What a row of arguments asks for. -/
inductive Request where
  | usage
  | help
  | version
  | invoke (invocation : Invocation)

end FieldLang
