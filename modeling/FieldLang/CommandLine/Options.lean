/-
Options of commands.

* `Command.forms` : the options that a command has;
* `Command.ofOptions?` : the command that options make;
* `Request.ofArguments` : what a row of arguments asks for.

Design notes: everything that can be wrong with the arguments themselves is found here, and
is one and the same failure.
-/
import FieldLang.CommandLine.Arguments
import FieldLang.CommandLine.Command
import FieldLang.Decimal.Reader

namespace FieldLang

namespace Command

/-- The option that shows help. -/
def helpForm : OptionForm := ⟨["--help"], 0⟩

/-- The options about warnings. -/
def warningForms : List OptionForm := [⟨["--warn-as-error"], 1⟩, ⟨["--suppress-warning"], 1⟩]

/-- The options about angles. -/
def angleForms : List OptionForm := [⟨["--a0"], 1⟩, ⟨["--a1"], 1⟩]

/-- The option that names an output file. -/
def outputForm : OptionForm := ⟨["--output", "-o"], 1⟩

/-- The options of each command. -/
def forms : String → Option (List OptionForm)
  | "expand" | "tokens" | "parse" | "check" => some (helpForm :: warningForms)
  | "eval" => some (helpForm :: ⟨["--point"], 3⟩ :: angleForms ++ warningForms)
  | "codegen" =>
    some (helpForm :: ⟨["--target"], 1⟩ :: ⟨["--width"], 1⟩ :: ⟨["--function-name"], 1⟩
      :: outputForm :: angleForms ++ warningForms)
  | "fmt" =>
    some [helpForm, ⟨["--width"], 1⟩, outputForm, ⟨["--in-place"], 0⟩, ⟨["--check"], 0⟩]
  | _ => none

/-- A value that may be absent, converted. -/
def converted {α : Type} (convert : String → Option α) : Option String → Option (Option α)
  | none => some none
  | some s => some <$> convert s

/-- A number given as a value. -/
def real? (s : String) : Option Float := Decimal.readNumber? s.toList

/-- A width given as a value. -/
def width? (s : String) : Option Int := do
  let n ← Decimal.readInteger? s.toList
  if 1 ≤ n then some n else none

/-- A target given as a value. -/
def target? (s : String) : Option Target := (Target.ofName s).toOption

/-- A point given as three values. -/
def point? : List String → Option Point
  | [x, y, z] => do return ⟨← real? x, ← real? y, ← real? z⟩
  | _ => none

/-- The command of a given name with its options. -/
def ofOptions? (name : String) (given : Given) : Option Command :=
  match name with
  | "expand" => some .expand
  | "tokens" => some .tokens
  | "parse" => some .parse
  | "check" => some .check
  | "eval" => do
    let points ← (given.uses "--point").mapM point?
    return .eval points (← converted real? (given.last? "--a0"))
      (← converted real? (given.last? "--a1"))
  | "codegen" => do
    return .codegen {
      target := ← converted target? (given.last? "--target")
      width := ← converted width? (given.last? "--width")
      functionName := given.last? "--function-name"
      a0 := ← converted real? (given.last? "--a0")
      a1 := ← converted real? (given.last? "--a1")
      output := (given.last? "--output").map Path.ofText }
  | "fmt" => do
    let width ← converted width? (given.last? "--width")
    return .format (width.getD defaultWidth) ((given.last? "--output").map Path.ofText)
      (given.has "--in-place") (given.has "--check")
  | _ => none

end Command

namespace Request

/-- What the arguments behind the name of a command ask for. -/
def ofCommand (name : String) (args : List String) : Request :=
  match (Command.forms name).bind fun forms => readArguments forms args with
  | none => .usage
  | some (given, others) =>
    if given.has "--help" then .help
    else
      match others with
      | [input] =>
        match Command.ofOptions? name given with
        | none => .usage
        | some command =>
          .invoke {
            command, input
            promote := given.last? "--warn-as-error"
            suppress := given.last? "--suppress-warning" }
      | _ => .usage

/-- What a row of arguments asks for. Options before the name of the command are about the
program as a whole, and the first of them decides. -/
def ofArguments : List String → Request
  | [] => .usage
  | arg :: rest =>
    if arg = "--version" ∨ arg = "--help" then
      match badOption rest with
      | true => .usage
      | false => if arg = "--version" then .version else .help
    else if arg = "--" then
      match rest with
      | [] => .usage
      | name :: args => ofCommand name args
    else if arg.toList.head? = some '-' ∧ arg ≠ "-" then .usage
    else ofCommand arg rest
where
  /-- Whether an unknown option stands before the name of the command. -/
  badOption : List String → Bool
    | [] => false
    | arg :: rest =>
      if arg = "--version" ∨ arg = "--help" then badOption rest
      else arg.toList.head? == some '-' && arg != "-" && arg != "--"

end Request

end FieldLang
