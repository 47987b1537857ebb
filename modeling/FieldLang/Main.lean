/-
The command line.

* `main` : reads the input that the arguments name, prints what the plan of the command says,
  and writes its file.
-/
import FieldLang.CommandLine.Run

namespace FieldLang

/-- The disk error that a failed operation on a file amounts to. -/
def diskErrorOf : IO.Error → DiskError
  | .noFileOrDirectory _ _ _ => .notFound
  | .inappropriateType _ 21 _ => .isDirectory
  | .inappropriateType _ _ _ => .notDirectory
  | _ => .isDirectory

/-- What is done with a file, or why it cannot be done. -/
def tryFile {α : Type} (action : IO α) : IO (Except DiskError α) := do
  match ← action.toBaseIO with
  | .ok a => return .ok a
  | .error e => return .error (diskErrorOf e)

/-- Prints an outcome and yields its exit code. -/
def showOutcome (o : Outcome) : IO UInt32 := do
  for d in o.warnings do
    IO.eprintln d.message
  IO.print o.output
  IO.eprint o.complaint
  return o.exitCode.toUInt32

/-- Carries out a plan. -/
def carryOut (p : Plan) : IO UInt32 := do
  match p.write with
  | none => showOutcome p.outcome
  | some w =>
    let result ← tryFile (IO.FS.writeFile w.path.text (String.ofList w.text))
    showOutcome (p.finish w result)

/-- Runs a command, unless its input does not exist. -/
def runInvocation (inv : Invocation) : IO UInt32 := do
  match ← tryFile (IO.FS.readFile inv.input) with
  | .error .notFound | .error .notDirectory => showOutcome usageOutcome
  | .error e => carryOut (inv.plan .reference (.error e))
  | .ok text => carryOut (inv.plan .reference (.ok text.toList))

end FieldLang

open FieldLang in
def main (args : List String) : IO UInt32 :=
  match Request.ofArguments args with
  | .usage => showOutcome usageOutcome
  | .help => showOutcome helpOutcome
  | .version => showOutcome versionOutcome
  | .invoke inv => runInvocation inv
