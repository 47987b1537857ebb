/-
What commands stop at.

* `Failure` : all that can go wrong while a command runs, also what it would not report;
* `Failure.IsExpected` : the errors that are reported;
* `Command.StopsAt`, `Invocation.StopsAt` : the failure at which a command stops;
* `Command.StopsAt.isExpected` : on a valid scene, commands stop at expected failures only;
* `Invocation.Differs`, `Invocation.Mismatches` : the other ways not to succeed.

Design notes: the failures of a command are stated on the stages that it calls, since a plan only holds
the wording of an error. A tolerance below zero counts as a failure, although `Probe.matches` is defined
for it, because the comparison of floating-point numbers that it stands for refuses one.
-/
import FieldLang.Proofs.CommandLine.Requests
import FieldLang.Proofs.Eval.Failures
import FieldLang.Proofs.Loops.Unrolled
import FieldLang.Proofs.Scene.Validity
import FieldLang.Proofs.Writing.Refusals

namespace FieldLang

/-! ### Failures -/

/-- What a command can stop at. -/
inductive Failure where
  | code (e : UnknownCode)
  | scene (e : SceneError)
  | source (e : SourceError)
  | eval (e : EvalError)
  | writing (e : WriteError)
  | noProbes (path : Path)
  | tolerance (p : Probe)

/-- The wording of a failure. -/
def Failure.message : Failure → String
  | code e => e.message
  | scene e => e.message
  | source e => e.message
  | eval e => e.message
  | writing e => e.message
  | noProbes path => "Scene " ++ path.text ++ " defines no probes"
  | tolerance _ => "tolerances must be non-negative"

/-- A fault of a source text: not a count that is too long to be read, and no text left over. -/
def SourceError.IsExpected : SourceError → Prop
  | .loop e =>
    match e.fault with
    | .hugeCount _ | .strayEnd => False
    | _ => True
  | .lex _ | .parse _ => True

/-- A failure that is reported: an unknown code, a fault of the input, or a scene that has nothing to
check. -/
def Failure.IsExpected : Failure → Prop
  | code _ | noProbes _ => True
  | scene e => e.IsExpected
  | source e => e.IsExpected
  | eval e => e.IsRuntime
  | writing e => e.IsExpected
  | tolerance _ => False

theorem Failure.IsExpected.ne_tolerance {f : Failure} (h : f.IsExpected) (p : Probe) :
    f ≠ .tolerance p := by
  rintro rfl
  exact h

/-- Whether a command needs the program of a scene. -/
def Command.NeedsProgram (s : Scene) : Command → Prop
  | .parse | .eval _ _ _ | .codegen _ => True
  | .check => s.probes ≠ []
  | .expand | .tokens | .format _ _ _ _ => False

/-- The angles at which a scene is evaluated. -/
def Scene.anglesWith (s : Scene) (a0 a1 : Option Float) : Angles :=
  ⟨a0.getD s.angles.a0, a1.getD s.angles.a1⟩

/-- The failure that stops a command on a scene: the first one of the stages that it calls. -/
inductive Command.StopsAt (policy : Option Policy) (path : Path) (s : Scene) :
    Command → Failure → Prop where
  | expand {e} : (Loops.expand policy s.source).outcome = .error e →
      StopsAt policy path s .expand (.source (.loop e))
  | tokens {e} : (tokenize policy s.source).outcome = .error e →
      StopsAt policy path s .tokens (.source e)
  | unread {c e} : c.NeedsProgram s → (FieldLang.parse policy s.source).outcome = .error e →
      StopsAt policy path s c (.source e)
  | eval {points a0 a1 program before point after e} :
      (FieldLang.parse policy s.source).outcome = .ok program →
      (if points.isEmpty then defaultPoints else points) = before ++ point :: after →
      (∀ p ∈ before, ∃ x, evaluate (s.anglesWith a0 a1) (.block program) p = .ok x) →
      evaluate (s.anglesWith a0 a1) (.block program) point = .error e →
      StopsAt policy path s (.eval points a0 a1) (.eval e)
  | codegen {overrides program e} : (FieldLang.parse policy s.source).outcome = .ok program →
      generate (overrides.options s) (.block program) = .error e →
      StopsAt policy path s (.codegen overrides) (.writing e)
  | noProbes : s.probes = [] → StopsAt policy path s .check (.noProbes path)
  | check {program before probe after e} :
      (FieldLang.parse policy s.source).outcome = .ok program →
      s.probes = before ++ probe :: after →
      (∀ p ∈ before, ∃ x, evaluate s.angles (.block program) p.point = .ok x) →
      evaluate s.angles (.block program) probe.point = .error e →
      StopsAt policy path s .check (.eval e)
  | tolerance {probe} : probe ∈ s.probes → probe.tolerance < 0 →
      StopsAt policy path s .check (.tolerance probe)

/-- Whether a command is about a scene, and not about the text of a file. -/
def Command.OnScene : Command → Prop
  | .format _ _ _ _ => False
  | _ => True

section Inputs

variable (library : SceneLibrary) (inv : Invocation) (text : List Char)

/-- The failure that stops a command on the text of its input. -/
inductive Invocation.StopsAt : Failure → Prop where
  | code {e} : inv.command.OnScene → Policy.ofOptions inv.promote inv.suppress = .error e →
      StopsAt (.code e)
  | scene {policy e} : inv.command.OnScene →
      Policy.ofOptions inv.promote inv.suppress = .ok policy →
      loadScene library inv.path (.ok text) = .error e → StopsAt (.scene e)
  | command {policy s f} : inv.command.OnScene →
      Policy.ofOptions inv.promote inv.suppress = .ok policy →
      loadScene library inv.path (.ok text) = .ok s →
      inv.command.StopsAt policy inv.path s f → StopsAt f
  | unread {width output inPlace compare e} :
      inv.command = .format width output inPlace compare → ¬inv.Misused →
      (parse none text).outcome = .error e → StopsAt (.source e)
  | unwritten {width output inPlace compare program e} :
      inv.command = .format width output inPlace compare → ¬inv.Misused →
      (parse none text).outcome = .ok program → unparse width (.block program) = .error e →
      StopsAt (.writing e)

/-- The probes of a scene are checked, and one of them is missed. -/
def Invocation.Mismatches : Prop :=
  inv.command = .check ∧ ∃ policy s results,
    Policy.ofOptions inv.promote inv.suppress = .ok policy ∧
    loadScene library inv.path (.ok text) = .ok s ∧ s.probes ≠ [] ∧
    (s.check policy).outcome = .ok results ∧ ∃ r ∈ results, r.1.matches r.2 = false

/-- The file is compared with its formatted text, and differs from it. -/
def Invocation.Differs : Prop :=
  ∃ width output inPlace program formatted,
    inv.command = .format width output inPlace true ∧ ¬inv.Misused ∧
    (parse none text).outcome = .ok program ∧
    unparse width (.block program) = .ok formatted ∧ formatted ++ ['\n'] ≠ text

end Inputs

/-! ### Stages -/

section Stages

variable {policy : Option Policy} {path : Path} {s : Scene} {c : Command} {f : Failure}
  {source : List Char}

theorem expected_of_expand (hcounts : ¬HasLongNumeral source) {e : Loops.LoopError}
    (h : (Loops.expand policy source).outcome = .error e) : (SourceError.loop e).IsExpected := by
  obtain (⟨hmalformed, -⟩ | ⟨digits, -, hdigits, hlong, hinfix⟩) | ⟨d, rfl⟩ := Loops.expand_error h
  · rw [SourceError.IsExpected]
    cases hfault : e.fault <;> rw [hfault] at hmalformed <;> first | exact hmalformed | trivial
  · have hpart : digits <:+: '@' :: (digits ++ ['{']) := ⟨['@'], ['{'], by simp⟩
    exact absurd ⟨digits, hpart.trans hinfix, hdigits, hlong⟩ hcounts
  · trivial

theorem expected_of_mapError {e : SourceError} (hcounts : ¬HasLongNumeral source)
    (h : ((Loops.expand policy source).mapError SourceError.loop).outcome = .error e) :
    e.IsExpected := by
  obtain ⟨e', he', rfl⟩ := mapError_eq_error.mp h
  exact expected_of_expand hcounts he'

theorem expected_of_tokenize (hcounts : ¬HasLongNumeral source) {e : SourceError}
    (h : (tokenize policy source).outcome = .error e) : e.IsExpected := by
  rw [tokenize] at h
  obtain h | ⟨text, -, h⟩ := outcome_bind_eq_error.mp h
  · exact expected_of_mapError hcounts h
  · obtain ⟨e', -, rfl⟩ := mapError_eq_error.mp h
    trivial

theorem expected_of_parse (hcounts : ¬HasLongNumeral source) {e : SourceError}
    (h : (parse policy source).outcome = .error e) : e.IsExpected := by
  rw [parse] at h
  obtain h | ⟨text, -, h⟩ := outcome_bind_eq_error.mp h
  · exact expected_of_mapError hcounts h
  · obtain h | ⟨ts, -, h⟩ := outcome_bind_eq_error.mp h
    · obtain ⟨e', -, rfl⟩ := mapError_eq_error.mp h
      trivial
    · obtain ⟨e', -, rfl⟩ := mapError_eq_error.mp h
      trivial

theorem options_width_pos (hs : s.Valid) {overrides : WritingOverrides}
    (h : ∀ width, overrides.width = some width → 0 < width) : 0 < (overrides.options s).width := by
  rw [WritingOverrides.options]
  cases hwidth : overrides.width with
  | none => exact hs.writing.width
  | some width => exact h width hwidth

/-- On a valid scene, commands stop at expected failures only. -/
theorem Command.StopsAt.isExpected (h : c.StopsAt policy path s f) (hs : s.Valid)
    (hc : c.Fits) (hcounts : ¬HasLongNumeral s.source) : f.IsExpected := by
  have hruntime : ∀ {program angles point e}, (FieldLang.parse policy s.source).outcome = .ok program →
      evaluate angles (.block program) point = .error e → e.IsRuntime := by
    intro program angles point e hp he
    obtain ⟨d, hd⟩ | ⟨e', he', hruntime⟩ :=
      evaluate_ok_or_runtime angles (named_of_parse hp) point
    · cases hd.symm.trans he
    · cases he'.symm.trans he
      exact hruntime
  cases h with
  | expand h => exact expected_of_expand hcounts h
  | tokens h => exact expected_of_tokenize hcounts h
  | unread _ h => exact expected_of_parse hcounts h
  | eval hp _ _ h => exact hruntime hp h
  | codegen hp h => exact generate_error (named_of_parse hp) (options_width_pos hs hc) h
  | noProbes => trivial
  | check hp _ _ h => exact hruntime hp h
  | tolerance hprobe h => exact hs.probes _ hprobe h

end Stages

end FieldLang
