/-
Scenes.

A scene is a program with settings: the angle parameters, a camera, how the program is
written, and probes, which are points with the distances that are expected there.

* `Probe`, `Scene` : the parts of a scene;
* `Probe.matches` : whether a distance is the expected one;
* `Scene.declared` : what the data of a scene must be;
* `Scene.load`, `Scene.ofSource` : a scene from its text, and from the text of a program;
* `Scene.check` : the distances at the probes.

Design notes: the text of a scene is read, and its data are validated, by a library. What it raises
becomes an error of the scene where the loader expects it, and escapes everywhere else. How the
library words its errors is left out.
-/
import FieldLang.Scene.Library
import FieldLang.Syntax.Parser
import FieldLang.Text.Identifier
import FieldLang.Text.Split
import FieldLang.Writing.Target

namespace FieldLang

/-- A point and the distance that is expected there. -/
structure Probe where
  point : Point
  expect : Float
  tolerance : Float := 1e-6

/-- Whether a distance is the expected one: any NaN for a NaN, an infinity only for itself, and
otherwise one within the tolerance. -/
def Probe.matches (p : Probe) (actual : Float) : Bool :=
  if p.expect.isNaN then actual.isNaN
  else if actual == p.expect then true
  else if actual.isInf || p.expect.isInf then false
  else (p.expect - actual).abs ≤ p.tolerance

/-- How the program of a scene is written. -/
structure WritingSettings where
  target : Target := .python
  width : Int := defaultWidth
  functionName : String := defaultFunctionName

/-- A program with settings. -/
structure Scene where
  version : String
  name : Option String := none
  source : List Char
  angles : Angles := {}
  camera : Option Point := none
  writing : WritingSettings := {}
  probes : List Probe := []

/-! ### Errors -/

/-- Why there is no scene. -/
inductive SceneError where
  | unreadable (reason : String)
  | blank (path : String)
  | notData
  | notRecord
  | noVersion
  | badVersion (version : String)
  | newVersion (version : String)
  | schema (problems : List SchemaProblem)
  /-- An exception of a library that nothing is made of. -/
  | escaped (kind : String)
deriving Repr, DecidableEq

/-- The newest version that is understood. -/
def latestVersion : Int × Int := (0, 1)

/-- Whether a problem is listed before another one: by place, then by code. -/
def SchemaProblem.before (p q : SchemaProblem) : Bool :=
  p.placeText < q.placeText || (p.placeText == q.placeText && !(q.fault.code < p.fault.code))

/-- The problems in the order in which they are listed. -/
def sortProblems (ps : List SchemaProblem) : List SchemaProblem :=
  ps.mergeSort SchemaProblem.before

/-- The wording of an error. -/
def SceneError.message : SceneError → String
  | unreadable reason => "Cannot read file: " ++ reason
  | blank path => "Source file is empty: " ++ path
  | notData => "Invalid YAML: the text is no data"
  | notRecord => "Top-level YAML value must be a mapping"
  | noVersion => "Missing required field: version"
  | badVersion v => "Invalid version format: " ++ Text.quote v
  | newVersion v =>
    "Unsupported version: " ++ Text.quote v ++ " (latest supported is "
      ++ toString latestVersion.1 ++ "." ++ toString latestVersion.2 ++ ")"
  | schema problems =>
    let lines := (sortProblems problems).map fun p => "\n" ++ p.placeText ++ ": " ++ p.fault.code
    "Schema validation failed:" ++ String.join lines
  | escaped kind => kind

/-! ### Versions -/

/-- A version must be two whole numbers, and not a newer one than is understood. -/
def checkVersion (version : String) : Except SceneError Unit :=
  match Text.split '.' version.toList with
  | [major, minor] =>
    match Decimal.readInteger? major, Decimal.readInteger? minor with
    | some m, some n =>
      if latestVersion.1 < m ∨ (m = latestVersion.1 ∧ latestVersion.2 < n) then
        .error (.newVersion version)
      else .ok ()
    | _, _ => .error (.badVersion version)
  | _ => .error (.badVersion version)

/-! ### The schema -/

/-- A text that is not blank. -/
def sourceDeclared : Declared String :=
  .refined .text (fun s => !(Text.trim s.toList).isEmpty) .badValue

/-- The angle parameters. -/
def Angles.declared : Declared Angles :=
  .record (.field "a0" .real (some 0) <| .field "a1" .real (some 0) .none)
    fun (a0, a1, ()) => ⟨a0, a1⟩

/-- How a program is written: for a target, in a width above zero, as a function with an
identifier for a name. -/
def WritingSettings.declared : Declared WritingSettings :=
  .record
    (.field "target" (.choice [("python", .python), ("dsl", .dsl)]) (some .python) <|
      .field "width" (.refined .whole (fun n => decide (0 < n)) .notPositive) (some defaultWidth) <|
      .field "function_name" (.refined .text (fun s => Text.isIdentifier s.toList) .badValue)
        (some defaultFunctionName) .none)
    fun (target, width, functionName, ()) => ⟨target, width, functionName⟩

/-- A probe with a tolerance that is not below zero. -/
def Probe.declared : Declared Probe :=
  .record
    (.field "point" .triple none <|
      .field "expect" .real none <|
      .field "tolerance" (.refined .real (fun x => !decide (x < 0)) .negative) (some 1e-6) .none)
    fun (point, expect, tolerance, ()) => ⟨point, expect, tolerance⟩

namespace Scene

/-- A scene. -/
def declared : Declared Scene :=
  .record
    (.field "version" .text none <|
      .field "name" (.nullable .text) (some none) <|
      .field "source" sourceDeclared none <|
      .field "angles" Angles.declared (some {}) <|
      .field "camera" (.nullable .triple) (some none) <|
      .field "codegen" WritingSettings.declared (some {}) <|
      .field "probes" (.row Probe.declared) (some []) .none)
    fun (version, name, source, angles, camera, writing, probes, ()) =>
      ⟨version, name, source.toList, angles, camera, writing, probes⟩

/-- The entries of a record with a text for the version. -/
def withVersion (version : String) (entries : List (String × Datum)) : List (String × Datum) :=
  entries.map fun (name, d) => (name, if name = "version" then .text version else d)

section Loading

variable (library : SceneLibrary)

/-- The scene that data describe. -/
def ofDatum : Datum → Except SceneError Scene
  | .record entries =>
    match entries.lookup "version" with
    | none | some .null => .error .noVersion
    | some v => do
      checkVersion v.asText
      match library.validate declared (.record (withVersion v.asText entries)) with
      | .ok s => .ok s
      | .error (.own problems) => .error (.schema problems)
      | .error (.other kind) => .error (.escaped kind)
  | _ => .error .notRecord

/-- The scene that a text describes. -/
def load (text : List Char) : Except SceneError Scene :=
  match library.load text with
  | .ok d => ofDatum library d
  | .error (.own ()) => .error .notData
  | .error (.other kind) => .error (.escaped kind)

/-- The scene of a program without settings. Nothing is expected to be wrong with it. -/
def ofSource (name : String) (source : List Char) : Except SceneError Scene :=
  let entries : List (String × Datum) :=
    [("version", .text "0.1"), ("name", .text name), ("source", .text (String.ofList source))]
  match library.validate declared (.record entries) with
  | .ok s => .ok s
  | .error (.own _) => .error (.escaped "ValidationError")
  | .error (.other kind) => .error (.escaped kind)

end Loading

/-- The scene that a text describes, by the reference. -/
def ofText (text : List Char) : Except SceneError Scene := load .reference text

/-! ### Probes -/

/-- Why the probes of a scene cannot be checked. -/
inductive CheckError where
  | source (error : SourceError)
  | eval (error : EvalError)

/-- The wording of an error. -/
def CheckError.message : CheckError → String
  | source e => e.message
  | eval e => e.message

/-- The distances at the probes of a scene. -/
def check (policy : Option Policy) (s : Scene) : Reporting CheckError (List (Probe × Float)) := do
  let p ← (parse policy s.source).mapError .source
  Reporting.ofExcept (s.probes.mapM fun probe => do
    let actual ← (evaluate s.angles (.block p) probe.point).mapError .eval
    return (probe, actual))

end Scene

end FieldLang
