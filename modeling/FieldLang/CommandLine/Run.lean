/-
Running commands.

* `Plan` : what a command prints, whether it fails, and the file that it writes;
* `Invocation.plan` : the plan of a command for the text of its input;
* `Outcome`, `Plan.finish` : what is left to show once the file is written;
* `Libraries` : the reader of arguments and the library that scenes are loaded through;
* `Libraries.run`, `run` : a row of arguments on a disk, through any libraries and by the reference.

Design notes: all that a command computes is in its plan. A plan that fails writes no file.
-/
import FieldLang.CommandLine.Disk
import FieldLang.CommandLine.Options
import FieldLang.Scene.Scene
import FieldLang.Syntax.Display

namespace FieldLang

/-! ### Plans -/

/-- A file that a command writes. -/
structure FileWrite where
  path : Path
  text : List Char
  /-- What is printed when it is written. -/
  done : String
deriving Repr, DecidableEq

/-- What a command does. -/
structure Plan where
  exitCode : Nat := 0
  output : String := ""
  complaint : String := ""
  warnings : List Diagnostic := []
  write : Option FileWrite := none
deriving Repr, DecidableEq

namespace Plan

/-- The exit code of a command that fails. -/
def failureCode : Nat := 1

/-- The exit code of a command that was called wrongly. -/
def usageCode : Nat := 2

/-- The exit code of a check that found a mismatch. -/
def mismatchCode : Nat := 3

/-- How the program is called. -/
def usage : String := "Usage: sdfscript COMMAND INPUT_FILE\n"

/-- The wording of a failure. -/
def complaintOf (message : String) : String := "Error: " ++ message ++ "\n"

/-- Fails with a message. -/
def fail (message : String) (warnings : List Diagnostic) : Plan :=
  { exitCode := failureCode, complaint := complaintOf message, warnings }

/-- Fails because options do not go together. -/
def misuse (message : String) : Plan :=
  { exitCode := usageCode, complaint := usage ++ complaintOf message }

/-- Prints a text. -/
def print (output : String) (warnings : List Diagnostic) : Plan := { output, warnings }

/-- Goes on with the value of a computation, or fails with its message. -/
def ofReporting {ε α : Type} (message : ε → String) (r : Reporting ε α)
    (next : List Diagnostic → α → Plan) : Plan :=
  match r.outcome with
  | .ok a => next r.reported a
  | .error e => fail (message e) r.reported

/-- Prints a text or writes it to a file. -/
def printOrWrite (output : Option Path) (text : List Char) (warnings : List Diagnostic) : Plan :=
  match output with
  | none => print (String.ofList text) warnings
  | some path => { warnings, write := some ⟨path, text, "Wrote: " ++ path.text ++ "\n"⟩ }

end Plan

/-! ### Inputs -/

/-- The scene in a file: a scene of its own, or a program without settings. -/
def loadScene (library : SceneLibrary) (path : Path) (content : Except DiskError (List Char)) :
    Except SceneError Scene :=
  match content with
  | .error e => .error (.unreadable (e.message path))
  | .ok text =>
    if path.isScene then Scene.load library text
    else if (Text.trim text).isEmpty then .error (.blank path.text)
    else Scene.ofSource library path.stem text

/-! ### Commands -/

/-- A line for a token: its offset, its class and what it says. -/
def tokenLine (t : Token) : String :=
  let value := match t.lexeme with
    | .number x => String.ofList (Decimal.general 6 x)
    | .function f => f.tag
    | .variable name => name
    | lexeme => lexeme.fixedSpelling?.getD ""
  toString t.pos ++ "\t" ++ t.lexeme.className ++ "\t" ++ value ++ "\n"

/-- A distance in a report. -/
def distanceText (x : Float) : String := String.ofList (Decimal.general 9 x)

/-- A coordinate in a report. -/
def coordinateText (x : Float) : String := String.ofList (Decimal.general 6 x)

/-- A line for a probe and the distance there. -/
def probeLine (probe : Probe) (actual : Float) : String :=
  let p := probe.point
  (if probe.matches actual then "ok" else "FAIL") ++ "\t(" ++ coordinateText p.x ++ ", "
    ++ coordinateText p.y ++ ", " ++ coordinateText p.z ++ ")\texpected "
    ++ distanceText probe.expect ++ "\tgot " ++ distanceText actual ++ "\n"

/-- Prints distances one after the other, up to the first that there is none. -/
def printDistances (output : String) (warnings : List Diagnostic) :
    List (Except EvalError Float) → Plan
  | [] => .print output warnings
  | .ok x :: rest => printDistances (output ++ distanceText x ++ "\n") warnings rest
  | .error e :: _ => { Plan.fail e.message warnings with output }

/-- The points where a program is evaluated unless there are others. -/
def defaultPoints : List Point := [⟨0, 0, 0⟩]

/-- How the program of a scene is written under some overrides; an empty name is no name. -/
def WritingOverrides.options (o : WritingOverrides) (s : Scene) : Options where
  width := o.width.getD s.writing.width
  a0 := o.a0.getD s.angles.a0
  a1 := o.a1.getD s.angles.a1
  target := ((o.target.getD s.writing.target).name)
  functionName :=
    match o.functionName with
    | none => s.writing.functionName
    | some name => if name = "" then s.writing.functionName else name
  standalone := true

/-- A text that ends in a line feed. -/
def endLine (text : List Char) : List Char :=
  if text.getLast? = some '\n' then text else text ++ ['\n']

/-- The report about the probes of a scene. -/
def checkReport (warnings : List Diagnostic) (results : List (Probe × Float)) : Plan :=
  let output := String.join (results.map fun (probe, actual) => probeLine probe actual)
  let failed := (results.filter fun (probe, actual) => !probe.matches actual).length
  let count := toString results.length
  if failed = 0 then .print (output ++ "All " ++ count ++ " probes passed\n") warnings
  else
    { exitCode := Plan.mismatchCode, output, warnings
      complaint := toString failed ++ " of " ++ count ++ " probes failed\n" }

/-- What a command does with a scene. -/
def Command.onScene (policy : Option Policy) (path : Path) (s : Scene) : Command → Plan
  | .expand =>
    .ofReporting Loops.LoopError.message (Loops.expand policy s.source) fun warnings text =>
      .print (String.ofList text ++ "\n") warnings
  | .tokens =>
    .ofReporting SourceError.message (tokenize policy s.source) fun warnings ts =>
      .print (String.join (ts.map tokenLine)) warnings
  | .parse =>
    .ofReporting SourceError.message (FieldLang.parse policy s.source) fun warnings program =>
      .print (displayProgram program ++ "\n") warnings
  | .eval points a0 a1 =>
    .ofReporting SourceError.message (FieldLang.parse policy s.source) fun warnings program =>
      let angles : Angles := ⟨a0.getD s.angles.a0, a1.getD s.angles.a1⟩
      let points := if points.isEmpty then defaultPoints else points
      printDistances "" warnings (points.map (evaluate angles (.block program)))
  | .codegen overrides =>
    .ofReporting SourceError.message (FieldLang.parse policy s.source) fun warnings program =>
      match generate (overrides.options s) (.block program) with
      | .error e => .fail e.message warnings
      | .ok text => .printOrWrite overrides.output (endLine text) warnings
  | .check =>
    if s.probes.isEmpty then .fail ("Scene " ++ path.text ++ " defines no probes") []
    else .ofReporting Scene.CheckError.message (s.check policy) checkReport
  | .format _ _ _ _ => {}

/-- Why options of formatting do not go together, or with the input. -/
def formatMisuse? (path : Path) (output : Option Path) (inPlace compare : Bool) : Option String :=
  if inPlace && output.isSome then some "--in-place and -o/--output are mutually exclusive"
  else if inPlace && compare then some "--in-place and --check are mutually exclusive"
  else if path.isScene then some "fmt formats plain sdfscript files, not scene files"
  else none

/-- What is done with a formatted text. -/
def formatPlan (path : Path) (output : Option Path) (inPlace compare : Bool)
    (source formatted : List Char) (warnings : List Diagnostic) : Plan :=
  if compare then { exitCode := if formatted = source then 0 else Plan.failureCode, warnings }
  else if inPlace then
    { warnings, write := some ⟨path, formatted, "Formatted: " ++ path.text ++ "\n"⟩ }
  else .printOrWrite output formatted warnings

/-- Formats the program in a file. -/
def formatFile (path : Path) (width : Int) (output : Option Path) (inPlace compare : Bool)
    (content : Except DiskError (List Char)) : Plan :=
  match formatMisuse? path output inPlace compare with
  | some message => .misuse message
  | none =>
    match content with
    | .error e => .fail ("Cannot read " ++ path.text ++ ": " ++ e.message path) []
    | .ok source =>
      .ofReporting SourceError.message (parse none source) fun warnings program =>
        match unparse width (.block program) with
        | .error e => .fail e.message warnings
        | .ok text => formatPlan path output inPlace compare source (text ++ ['\n']) warnings

/-- What a command does with the text of its input. -/
def Invocation.plan (library : SceneLibrary) (inv : Invocation)
    (content : Except DiskError (List Char)) : Plan :=
  let content := readLines <$> content
  match inv.command with
  | .format width output inPlace compare => formatFile inv.path width output inPlace compare content
  | command =>
    match Policy.ofOptions inv.promote inv.suppress with
    | .error e => .fail e.message []
    | .ok policy =>
      match loadScene library inv.path content with
      | .error e => .fail e.message []
      | .ok s => command.onScene policy inv.path s

/-! ### Outcomes -/

/-- What a command leaves to show. -/
structure Outcome where
  exitCode : Nat
  output : String
  complaint : String
  warnings : List Diagnostic
deriving Repr, DecidableEq

/-- The outcome of a plan without a file. -/
def Plan.outcome (p : Plan) : Outcome := ⟨p.exitCode, p.output, p.complaint, p.warnings⟩

/-- The outcome of a plan after an attempt to write its file. -/
def Plan.finish (p : Plan) (w : FileWrite) (result : Except DiskError Unit) : Outcome :=
  match result with
  | .ok () => { p.outcome with output := p.output ++ w.done }
  | .error e =>
    let message := "Cannot write " ++ w.path.text ++ ": " ++ e.message w.path
    { p.outcome with exitCode := Plan.failureCode, complaint := Plan.complaintOf message }

/-- The outcome of a call that was wrong. -/
def usageOutcome : Outcome := ⟨Plan.usageCode, "", Plan.usage, []⟩

/-- The outcome of asking for help. -/
def helpOutcome : Outcome := ⟨0, Plan.usage, "", []⟩

/-- The outcome of asking for the version. -/
def versionOutcome : Outcome := ⟨0, "sdfscript, version 0.1.0\n", "", []⟩

/-- Writes the file of a plan. -/
def Plan.perform (p : Plan) (disk : Disk) : Outcome × Disk :=
  match p.write with
  | none => (p.outcome, disk)
  | some w =>
    match disk.write w.path w.text with
    | .ok disk' => (p.finish w (.ok ()), disk')
    | .error e => (p.finish w (.error e), disk)

/-- The libraries that the command line uses. -/
structure Libraries extends SceneLibrary where
  /-- What a row of arguments asks for. -/
  arguments : List String → Request

/-- The libraries that programs run with. -/
def Libraries.reference : Libraries where
  toSceneLibrary := .reference
  arguments := Request.ofArguments

/-- Runs a row of arguments on a disk. -/
def Libraries.run (libraries : Libraries) (disk : Disk) (args : List String) : Outcome × Disk :=
  match libraries.arguments args with
  | .usage => (usageOutcome, disk)
  | .help => (helpOutcome, disk)
  | .version => (versionOutcome, disk)
  | .invoke inv =>
    if disk.has inv.input then
      (inv.plan libraries.toSceneLibrary (disk.read inv.path)).perform disk
    else (usageOutcome, disk)

/-- Runs a row of arguments on a disk, by the reference. -/
def run (disk : Disk) (args : List String) : Outcome × Disk := Libraries.reference.run disk args

end FieldLang
