/-
What plans tell.

* `Plan.FailsFor` : a plan that reports a failure and writes nothing;
* `Command.StopsAt.failsFor`, `Invocation.StopsAt.failsFor` : so is that of a command which stops;
* `Invocation.Ends`, `plan_ends` : everything that a plan can be;
* `plan_exitCode` : what its exit code tells;
* `plan_write` : the file that it writes.

Design notes: `plan_ends` is the only place where the cases of a plan are told apart. It goes through
the stages of a command in their order, and takes what it says of a failing one from `failsFor`.
-/
import FieldLang.Proofs.CommandLine.Failures

namespace FieldLang

/-! ### Plans -/

/-- The plan reports a failure and writes nothing. -/
structure Plan.FailsFor (p : Plan) (f : Failure) : Prop where
  exitCode : p.exitCode = Plan.failureCode
  complaint : p.complaint = Plan.complaintOf f.message
  write : p.write = none

/-- Everything that a plan can be: it is done, or it stops at a failure, or it tells of a difference, of
options that do not go together, or of a mismatch. Unless it is done, it writes nothing. -/
inductive Invocation.Ends (library : SceneLibrary) (inv : Invocation) (text : List Char) (p : Plan) :
    Prop where
  | done : p.exitCode = 0 → Ends library inv text p
  | stopped {f} : inv.StopsAt library text f → p.FailsFor f → Ends library inv text p
  | different : inv.Differs text → p.exitCode = Plan.failureCode → p.write = none →
      Ends library inv text p
  | misused : inv.Misused → p.exitCode = Plan.usageCode → p.write = none → Ends library inv text p
  | mismatched : inv.Mismatches library text → p.exitCode = Plan.mismatchCode → p.write = none →
      Ends library inv text p

/-- The exit code tells how a plan ends. -/
theorem Invocation.Ends.exitCode {library : SceneLibrary} {inv : Invocation} {text : List Char}
    {p : Plan} (h : inv.Ends library text p) : p.exitCode = 0 ∨
      (p.exitCode = Plan.failureCode ∧ ((∃ f, inv.StopsAt library text f) ∨ inv.Differs text) ∧
        p.write = none) ∨
      (p.exitCode = Plan.usageCode ∧ inv.Misused ∧ p.write = none) ∨
      (p.exitCode = Plan.mismatchCode ∧ inv.Mismatches library text ∧ p.write = none) := by
  cases h with
  | done h => exact .inl h
  | stopped h hp => exact .inr (.inl ⟨hp.exitCode, .inl ⟨_, h⟩, hp.write⟩)
  | different h hexit hwrite => exact .inr (.inl ⟨hexit, .inr h, hwrite⟩)
  | misused h hexit hwrite => exact .inr (.inr (.inl ⟨hexit, h, hwrite⟩))
  | mismatched h hexit hwrite => exact .inr (.inr (.inr ⟨hexit, h, hwrite⟩))

section Plans

variable {policy : Option Policy} {path : Path} {s : Scene} {c : Command} {f : Failure}
  {ds : List Diagnostic} {output : String}

theorem failsFor_fail {message : String} (h : message = f.message) :
    (Plan.fail message ds).FailsFor f :=
  ⟨rfl, by rw [h]; rfl, rfl⟩

theorem ofReporting_of_error {ε α : Type} {message : ε → String} {r : Reporting ε α}
    {next : List Diagnostic → α → Plan} {e : ε} (h : r.outcome = .error e) :
    Plan.ofReporting message r next = .fail (message e) r.reported := by
  rw [Plan.ofReporting, h]

theorem ofReporting_of_ok {ε α : Type} {message : ε → String} {r : Reporting ε α}
    {next : List Diagnostic → α → Plan} {a : α} (h : r.outcome = .ok a) :
    Plan.ofReporting message r next = next r.reported a := by
  rw [Plan.ofReporting, h]

/-- Distances are printed up to the first point that has none. -/
theorem failsFor_printDistances {before after : List (Except EvalError Float)} {e : EvalError}
    (hbefore : ∀ r ∈ before, ∃ x, r = .ok x) :
    (printDistances output ds (before ++ .error e :: after)).FailsFor (.eval e) := by
  induction before generalizing output with
  | nil => exact ⟨rfl, rfl, rfl⟩
  | cons r before ih =>
    obtain ⟨⟨x, rfl⟩, hrest⟩ := List.forall_mem_cons.mp hbefore
    exact ih hrest

theorem printDistances_of_ok {results : List (Except EvalError Float)}
    (h : ∀ r ∈ results, ∃ x, r = .ok x) :
    ∃ text, printDistances output ds results = .print text ds := by
  induction results generalizing output with
  | nil => exact ⟨output, rfl⟩
  | cons r results ih =>
    obtain ⟨⟨x, rfl⟩, hrest⟩ := List.forall_mem_cons.mp h
    exact ih hrest

/-- The distance at a probe. -/
def Scene.probe (s : Scene) (program : Program) (p : Probe) :
    Except Scene.CheckError (Probe × Float) := do
  let actual ← (evaluate s.angles (.block program) p.point).mapError .eval
  return (p, actual)

theorem probe_ok {program : Program} {p : Probe} : (∃ r, s.probe program p = .ok r) ↔
    ∃ x, evaluate s.angles (.block program) p.point = .ok x := by
  simp only [Scene.probe, bind_eq_ok, mapError_eq_ok, pure_eq_ok]
  exact ⟨fun ⟨_, x, hx, _⟩ => ⟨x, hx⟩, fun ⟨x, hx⟩ => ⟨_, x, hx, rfl⟩⟩

theorem probe_error {program : Program} {p : Probe} {e : Scene.CheckError} :
    s.probe program p = .error e ↔
      ∃ e', evaluate s.angles (.block program) p.point = .error e' ∧ e = .eval e' := by
  rw [Scene.probe, bind_eq_error, mapError_eq_error]
  constructor
  · rintro (⟨e', he', rfl⟩ | ⟨x, -, h⟩)
    · exact ⟨e', he', rfl⟩
    · cases h
  · rintro ⟨e', he', rfl⟩
    exact .inl ⟨e', he', rfl⟩

theorem check_eq_bind : (s.check policy).outcome =
    (parse policy s.source).outcome.mapError .source >>= fun program =>
      s.probes.mapM (s.probe program) := by
  rw [Scene.check]
  obtain ⟨ds, e | program⟩ := parse policy s.source <;> rfl

/-- The probes of a scene have no distances if there is no program, or up to one that has none. -/
theorem check_eq_error {e : Scene.CheckError} : (s.check policy).outcome = .error e ↔
    (∃ e', (parse policy s.source).outcome = .error e' ∧ e = .source e') ∨
      ∃ program before probe after e', (parse policy s.source).outcome = .ok program ∧
        s.probes = before ++ probe :: after ∧
        (∀ p ∈ before, ∃ x, evaluate s.angles (.block program) p.point = .ok x) ∧
        evaluate s.angles (.block program) probe.point = .error e' ∧ e = .eval e' := by
  rw [check_eq_bind, bind_eq_error, mapError_eq_error]
  refine or_congr ⟨fun ⟨e', h, he⟩ => ⟨e', h, he.symm⟩, fun ⟨e', h, he⟩ => ⟨e', h, he.symm⟩⟩ ?_
  simp only [mapError_eq_ok, mapM_eq_error, probe_ok, probe_error]
  constructor
  · rintro ⟨program, hp, before, probe, after, hprobes, hbefore, e', he', rfl⟩
    exact ⟨program, before, probe, after, e', hp, hprobes, hbefore, he', rfl⟩
  · rintro ⟨program, before, probe, after, e', hp, hprobes, hbefore, he', rfl⟩
    exact ⟨program, hp, before, probe, after, hprobes, hbefore, e', he', rfl⟩

/-- A report tells whether a probe is missed. -/
theorem checkReport_exitCode (ds : List Diagnostic) (results : List (Probe × Float)) :
    (checkReport ds results).write = none ∧
      ((checkReport ds results).exitCode = 0 ∧ (∀ r ∈ results, r.1.matches r.2 = true) ∨
        (checkReport ds results).exitCode = Plan.mismatchCode ∧
          ∃ r ∈ results, r.1.matches r.2 = false) := by
  rw [checkReport]
  by_cases hnone : (results.filter fun r => !r.1.matches r.2).length = 0
  · rw [if_pos hnone]
    refine ⟨rfl, .inl ⟨rfl, fun r hr => ?_⟩⟩
    simpa using List.filter_eq_nil_iff.mp (List.length_eq_zero_iff.mp hnone) r hr
  · rw [if_neg hnone]
    obtain ⟨r, hr⟩ := List.exists_mem_of_length_pos (Nat.pos_of_ne_zero hnone)
    obtain ⟨hmem, hmiss⟩ := List.mem_filter.mp hr
    exact ⟨rfl, .inr ⟨rfl, r, hmem, by simpa using hmiss⟩⟩

theorem onScene_check (h : s.probes ≠ []) : Command.check.onScene policy path s =
    .ofReporting Scene.CheckError.message (s.check policy) checkReport :=
  if_neg (mt List.isEmpty_iff.mp h)

theorem Command.StopsAt.failsFor (h : c.StopsAt policy path s f) (hf : ∀ p, f ≠ .tolerance p) :
    (c.onScene policy path s).FailsFor f := by
  cases h with
  | expand h =>
    rw [Command.onScene, ofReporting_of_error h]
    exact failsFor_fail rfl
  | tokens h =>
    rw [Command.onScene, ofReporting_of_error h]
    exact failsFor_fail rfl
  -- the commands that read a program fail as its reader does, and a check hands that on
  | @unread c e hc h =>
    cases c with
    | parse =>
      rw [Command.onScene, ofReporting_of_error h]
      exact failsFor_fail rfl
    | eval points a0 a1 =>
      rw [Command.onScene, ofReporting_of_error h]
      exact failsFor_fail rfl
    | codegen overrides =>
      rw [Command.onScene, ofReporting_of_error h]
      exact failsFor_fail rfl
    | check =>
      have hcheck := check_eq_error.mpr (.inl ⟨e, h, rfl⟩)
      rw [onScene_check hc, ofReporting_of_error hcheck]
      exact failsFor_fail rfl
    | expand | tokens | format _ _ _ _ => exact hc.elim
  | @eval points a0 a1 program before point after e hp hpoints hbefore h =>
    rw [Command.onScene, ofReporting_of_ok hp]
    dsimp only
    rw [hpoints, List.map_append, List.map_cons]
    have h' : evaluate ⟨a0.getD s.angles.a0, a1.getD s.angles.a1⟩ (.block program) point =
        .error e := h
    rw [h']
    refine failsFor_printDistances fun r hr => ?_
    obtain ⟨p, hp, rfl⟩ := List.mem_map.mp hr
    exact hbefore p hp
  | codegen hp h =>
    rw [Command.onScene, ofReporting_of_ok hp]
    simp only [h]
    exact failsFor_fail rfl
  | noProbes h =>
    rw [Command.onScene, if_pos (List.isEmpty_iff.mpr h)]
    exact failsFor_fail rfl
  | @check program before probe after e hp hprobes hbefore h =>
    have hsome : s.probes ≠ [] := by simp [hprobes]
    have hcheck := check_eq_error.mpr
      (.inr ⟨program, before, probe, after, e, hp, hprobes, hbefore, h, rfl⟩)
    rw [onScene_check hsome, ofReporting_of_error hcheck]
    exact failsFor_fail rfl
  | tolerance => exact absurd rfl (hf _)

/-- What a command does with a scene: it is done, it stops at a failure, or probes are missed. -/
theorem Command.onScene_cases (policy : Option Policy) (path : Path) (s : Scene) (hc : c.OnScene) :
    (c.onScene policy path s).exitCode = 0 ∨
    (∃ f, c.StopsAt policy path s f ∧ (c.onScene policy path s).FailsFor f) ∨
    (c = .check ∧ s.probes ≠ [] ∧
      (∃ results, (s.check policy).outcome = .ok results ∧ ∃ r ∈ results, r.1.matches r.2 = false) ∧
      (c.onScene policy path s).exitCode = Plan.mismatchCode ∧
      (c.onScene policy path s).write = none) := by
  have hstop : ∀ f, c.StopsAt policy path s f → (∀ p, f ≠ .tolerance p) →
      ∃ f, c.StopsAt policy path s f ∧ (c.onScene policy path s).FailsFor f :=
    fun f h hf => ⟨f, h, h.failsFor hf⟩
  cases c with
  | expand =>
    cases h : (Loops.expand policy s.source).outcome with
    | ok text =>
      rw [Command.onScene, ofReporting_of_ok h]
      exact .inl rfl
    | error e => exact .inr (.inl (hstop _ (.expand h) nofun))
  | tokens =>
    cases h : (tokenize policy s.source).outcome with
    | ok ts =>
      rw [Command.onScene, ofReporting_of_ok h]
      exact .inl rfl
    | error e => exact .inr (.inl (hstop _ (.tokens h) nofun))
  | parse =>
    cases h : (FieldLang.parse policy s.source).outcome with
    | ok program =>
      rw [Command.onScene, ofReporting_of_ok h]
      exact .inl rfl
    | error e => exact .inr (.inl (hstop _ (.unread trivial h) nofun))
  -- the first point without a distance stops the command
  | eval points a0 a1 =>
    cases h : (FieldLang.parse policy s.source).outcome with
    | error e => exact .inr (.inl (hstop _ (.unread trivial h) nofun))
    | ok program =>
      cases hall : (if points.isEmpty then defaultPoints else points).mapM
          (evaluate (s.anglesWith a0 a1) (.block program)) with
      | error e =>
        obtain ⟨before, point, after, hpoints, hbefore, he⟩ := mapM_eq_error.mp hall
        exact .inr (.inl (hstop _ (.eval h hpoints hbefore he) nofun))
      | ok xs =>
        rw [Command.onScene, ofReporting_of_ok h]
        dsimp only
        obtain ⟨text, htext⟩ := @printDistances_of_ok (FieldLang.parse policy s.source).reported ""
          ((if points.isEmpty then defaultPoints else points).map
            (evaluate (s.anglesWith a0 a1) (.block program)))
          (fun r hr => by
            obtain ⟨p, hp, rfl⟩ := List.mem_map.mp hr
            exact mapM_eq_ok hall p hp)
        left
        exact congrArg Plan.exitCode htext
  | codegen overrides =>
    cases h : (FieldLang.parse policy s.source).outcome with
    | error e => exact .inr (.inl (hstop _ (.unread trivial h) nofun))
    | ok program =>
      cases hg : generate (overrides.options s) (.block program) with
      | error e => exact .inr (.inl (hstop _ (.codegen h hg) nofun))
      | ok text =>
        rw [Command.onScene, ofReporting_of_ok h]
        simp only [hg]
        cases overrides.output <;> exact .inl rfl
  -- without probes there is nothing to check, and the first one without a distance stops it
  | check =>
    by_cases hprobes : s.probes = []
    · exact .inr (.inl (hstop _ (.noProbes hprobes) nofun))
    cases h : (s.check policy).outcome with
    | error e =>
      obtain ⟨e', he', -⟩ | ⟨program, before, probe, after, e', hp, hpoints, hbefore, he', -⟩ :=
        check_eq_error.mp h
      · exact .inr (.inl (hstop _ (.unread hprobes he') nofun))
      · exact .inr (.inl (hstop _ (.check hp hpoints hbefore he') nofun))
    | ok results =>
      rw [onScene_check hprobes, ofReporting_of_ok h]
      obtain ⟨hwrite, ⟨hexit, -⟩ | ⟨hexit, hmiss⟩⟩ :=
        checkReport_exitCode (s.check policy).reported results
      · exact .inl hexit
      · exact .inr (.inr ⟨rfl, hprobes, ⟨results, rfl, hmiss⟩, hexit, hwrite⟩)
  | format width output inPlace compare => exact hc.elim

/-! ### Plans of invocations -/

variable {library : SceneLibrary} {inv : Invocation} {text : List Char}

theorem plan_of_onScene (hc : inv.command.OnScene) : inv.plan library (.ok text) =
    match Policy.ofOptions inv.promote inv.suppress with
    | .error e => .fail e.message []
    | .ok policy =>
      match loadScene library inv.path (.ok (readLines text)) with
      | .error e => .fail e.message []
      | .ok s => inv.command.onScene policy inv.path s := by
  have hread : (readLines <$> Except.ok text : Except DiskError (List Char)) = .ok (readLines text) :=
    rfl
  simp only [Invocation.plan, hread]
  generalize loadScene library inv.path (.ok (readLines text)) = loaded
  cases h : inv.command with
  | format width output inPlace compare =>
    rw [h] at hc
    exact hc.elim
  | _ => rfl

/-- Options that do not go together are told before anything is read. -/
theorem plan_of_misused (h : inv.Misused) :
    ∃ message, inv.plan library (.ok text) = .misuse message := by
  have ⟨width, output, inPlace, compare, hc, _⟩ := h
  obtain ⟨message, hmessage⟩ := Option.ne_none_iff_exists'.mp ((misused_iff hc).mp h)
  refine ⟨message, ?_⟩
  rw [Invocation.plan, hc]
  simp only [formatFile, hmessage]

theorem plan_of_format {width : Int} {output : Option Path} {inPlace compare : Bool}
    (hc : inv.command = .format width output inPlace compare) (h : ¬inv.Misused) :
    inv.plan library (.ok text) =
      .ofReporting SourceError.message (parse none (readLines text)) fun warnings program =>
        match unparse width (.block program) with
        | .error e => .fail e.message warnings
        | .ok formatted =>
          formatPlan inv.path output inPlace compare (readLines text) (formatted ++ ['\n'])
            warnings := by
  have hmisuse : formatMisuse? inv.path output inPlace compare = none :=
    not_not.mp fun hne => h ((misused_iff hc).mpr hne)
  rw [Invocation.plan, hc]
  simp only [formatFile, hmisuse]
  rfl

/-- A command that stops at a failure reports it and writes nothing. -/
theorem Invocation.StopsAt.failsFor (h : inv.StopsAt library (readLines text) f)
    (hf : ∀ p, f ≠ .tolerance p) : (inv.plan library (.ok text)).FailsFor f := by
  cases h with
  | code hc h =>
    rw [plan_of_onScene hc]
    simp only [h]
    exact failsFor_fail rfl
  | scene hc hpolicy h =>
    rw [plan_of_onScene hc]
    simp only [hpolicy, h]
    exact failsFor_fail rfl
  | command hc hpolicy hs h =>
    rw [plan_of_onScene hc]
    simp only [hpolicy, hs]
    exact h.failsFor hf
  | unread hc hused h =>
    rw [plan_of_format hc hused, ofReporting_of_error h]
    exact failsFor_fail rfl
  | unwritten hc hused hp h =>
    rw [plan_of_format hc hused, ofReporting_of_ok hp]
    simp only [h]
    exact failsFor_fail rfl

theorem Invocation.StopsAt.ends (h : inv.StopsAt library (readLines text) f)
    (hf : ∀ p, f ≠ .tolerance p) : inv.Ends library (readLines text) (inv.plan library (.ok text)) :=
  .stopped h (h.failsFor hf)

/-- A file that differs from its formatted text is told by the exit code alone. -/
theorem Invocation.Differs.exitCode (h : inv.Differs (readLines text)) :
    (inv.plan library (.ok text)).exitCode = Plan.failureCode := by
  obtain ⟨width, output, inPlace, program, formatted, hc, hused, hp, htext, hne⟩ := h
  rw [plan_of_format hc hused, ofReporting_of_ok hp]
  simp only [htext, formatPlan, if_true, if_neg hne]

theorem Invocation.Misused.exitCode (h : inv.Misused) :
    (inv.plan library (.ok text)).exitCode = Plan.usageCode := by
  obtain ⟨message, hplan⟩ := @plan_of_misused library inv text h
  rw [hplan]
  rfl

/-- A probe that is missed has an exit code of its own. -/
theorem Invocation.Mismatches.exitCode (h : inv.Mismatches library (readLines text)) :
    (inv.plan library (.ok text)).exitCode = Plan.mismatchCode := by
  obtain ⟨hc, policy, s, results, hpolicy, hs, hprobes, hcheck, r, hr, hmiss⟩ := h
  have honScene : inv.command.OnScene := by
    rw [hc]
    trivial
  rw [plan_of_onScene honScene]
  simp only [hpolicy, hs]
  rw [hc, onScene_check hprobes, ofReporting_of_ok hcheck]
  obtain ⟨-, ⟨-, hall⟩ | ⟨hexit, -⟩⟩ := checkReport_exitCode (s.check policy).reported results
  · rw [hall r hr] at hmiss
    cases hmiss
  · exact hexit

theorem ends_of_format {width : Int} {output : Option Path} {inPlace compare : Bool}
    (hc : inv.command = .format width output inPlace compare) :
    inv.Ends library (readLines text) (inv.plan library (.ok text)) := by
  by_cases hused : inv.Misused
  · obtain ⟨message, hplan⟩ := @plan_of_misused library inv text hused
    rw [hplan]
    exact .misused hused rfl rfl
  cases hp : (parse none (readLines text)).outcome with
  | error e => exact Invocation.StopsAt.ends (.unread hc hused hp) (by simp)
  | ok program =>
    cases htext : unparse width (.block program) with
    | error e => exact Invocation.StopsAt.ends (.unwritten hc hused hp htext) (by simp)
    | ok formatted =>
      have hplan : inv.plan library (.ok text) =
          formatPlan inv.path output inPlace compare (readLines text) (formatted ++ ['\n'])
            (parse none (readLines text)).reported := by
        rw [plan_of_format hc hused, ofReporting_of_ok hp]
        simp only [htext]
      rw [hplan]
      cases compare with
      | true =>
        by_cases hsame : formatted ++ ['\n'] = readLines text
        · exact .done (if_pos hsame)
        · exact .different ⟨width, output, inPlace, program, formatted, hc, hused, hp, htext, hsame⟩
            (if_neg hsame) rfl
      | false => cases inPlace <;> cases output <;> exact .done rfl

theorem ends_of_onScene (hc : inv.command.OnScene) :
    inv.Ends library (readLines text) (inv.plan library (.ok text)) := by
  cases hpolicy : Policy.ofOptions inv.promote inv.suppress with
  | error e => exact Invocation.StopsAt.ends (.code hc hpolicy) (by simp)
  | ok policy =>
    cases hs : loadScene library inv.path (.ok (readLines text)) with
    | error e => exact Invocation.StopsAt.ends (.scene hc hpolicy hs) (by simp)
    | ok s =>
      have hplan : inv.plan library (.ok text) = inv.command.onScene policy inv.path s := by
        rw [plan_of_onScene hc]
        simp only [hpolicy, hs]
      rw [hplan]
      obtain hdone | ⟨f, hf, hfails⟩ | ⟨hcheck, hprobes, ⟨results, hresults, hmiss⟩, hexit, hwrite⟩ :=
        Command.onScene_cases policy inv.path s hc
      · exact .done hdone
      · exact .stopped (.command hc hpolicy hs hf) hfails
      · exact .mismatched ⟨hcheck, policy, s, results, hpolicy, hs, hprobes, hresults, hmiss⟩
          hexit hwrite

theorem plan_ends : inv.Ends library (readLines text) (inv.plan library (.ok text)) := by
  cases hc : inv.command with
  | format width output inPlace compare => exact ends_of_format hc
  | _ => exact ends_of_onScene (by rw [hc]; trivial)

/-- The exit code of a plan tells how it ends, and a plan that does not succeed writes nothing. -/
theorem plan_exitCode (library : SceneLibrary) (inv : Invocation) (text : List Char)
    (hfails : ∀ f, inv.StopsAt library (readLines text) f →
      (inv.plan library (.ok text)).FailsFor f) :
    let p := inv.plan library (.ok text)
    (p.exitCode = 0 ∨ p.exitCode = Plan.failureCode ∨ p.exitCode = Plan.usageCode ∨
      p.exitCode = Plan.mismatchCode) ∧
    (p.exitCode = Plan.failureCode ↔
      (∃ f, inv.StopsAt library (readLines text) f) ∨ inv.Differs (readLines text)) ∧
    (p.exitCode = Plan.usageCode ↔ inv.Misused) ∧
    (p.exitCode = Plan.mismatchCode ↔ inv.Mismatches library (readLines text)) ∧
    (p.exitCode ≠ 0 → p.write = none) := by
  -- the four ways to end have different exit codes
  have hends : inv.Ends library (readLines text) (inv.plan library (.ok text)) := plan_ends
  refine ⟨?_, ⟨fun h => ?_, ?_⟩, ⟨fun h => ?_, fun h => h.exitCode⟩,
    ⟨fun h => ?_, fun h => h.exitCode⟩, fun h => ?_⟩
  · exact hends.exitCode.imp_right fun h => h.imp And.left fun h => h.imp And.left And.left
  · obtain hzero | ⟨-, hwhy, -⟩ | ⟨htwo, -⟩ | ⟨hthree, -⟩ := hends.exitCode
    · cases hzero.symm.trans h
    · exact hwhy
    · cases htwo.symm.trans h
    · cases hthree.symm.trans h
  · rintro (⟨f, h⟩ | h)
    · exact (hfails f h).exitCode
    · exact h.exitCode
  · obtain hzero | ⟨hone, -⟩ | ⟨-, hused, -⟩ | ⟨hthree, -⟩ := hends.exitCode
    · cases hzero.symm.trans h
    · cases hone.symm.trans h
    · exact hused
    · cases hthree.symm.trans h
  · obtain hzero | ⟨hone, -⟩ | ⟨htwo, -⟩ | ⟨-, hmissed, -⟩ := hends.exitCode
    · cases hzero.symm.trans h
    · cases hone.symm.trans h
    · cases htwo.symm.trans h
    · exact hmissed
  · obtain hzero | ⟨-, -, hwrite⟩ | ⟨-, -, hwrite⟩ | ⟨-, -, hwrite⟩ := hends.exitCode
    · exact absurd hzero h
    · exact hwrite
    · exact hwrite
    · exact hwrite

/-! ### Files -/

variable {w : FileWrite}

theorem printDistances_write (results : List (Except EvalError Float)) :
    (printDistances output ds results).write = none := by
  induction results generalizing output with
  | nil => rfl
  | cons r results ih =>
    cases r with
    | ok x => exact ih
    | error e => rfl

theorem ofReporting_write {ε α : Type} {message : ε → String} {r : Reporting ε α}
    {next : List Diagnostic → α → Plan} (h : (Plan.ofReporting message r next).write = some w) :
    ∃ a, (next r.reported a).write = some w := by
  rw [Plan.ofReporting] at h
  split at h
  · exact ⟨_, h⟩
  · cases h

/-- On a scene, only generated text is written, to the file that is asked for. -/
theorem onScene_write (h : (c.onScene policy path s).write = some w) :
    c.outputPath? = some w.path := by
  cases c with
  | expand | tokens | parse =>
    obtain ⟨a, h⟩ := ofReporting_write h
    cases h
  | eval points a0 a1 =>
    obtain ⟨program, h⟩ := ofReporting_write h
    rw [printDistances_write] at h
    cases h
  -- no other command on a scene has an output
  | codegen overrides =>
    obtain ⟨program, h⟩ := ofReporting_write h
    split at h
    · cases h
    · rw [Command.outputPath?]
      cases houtput : overrides.output with
      | none =>
        rw [houtput] at h
        cases h
      | some output =>
        rw [houtput] at h
        cases h
        rfl
  | check =>
    rw [Command.onScene] at h
    split at h
    · cases h
    · obtain ⟨results, h⟩ := ofReporting_write h
      rw [(checkReport_exitCode _ results).1] at h
      cases h
  | format width output inPlace compare => cases h

/-- A plan writes the input or the file that is asked for, and nothing for a comparison. -/
theorem plan_write (h : (inv.plan library (.ok text)).write = some w) :
    (w.path = inv.path ∨ inv.command.outputPath? = some w.path) ∧
      ∀ width output inPlace, inv.command ≠ .format width output inPlace true := by
  -- only formatting can write the input itself
  cases hc : inv.command with
  | format width output inPlace compare =>
    by_cases hused : inv.Misused
    · obtain ⟨message, hplan⟩ := @plan_of_misused library inv text hused
      rw [hplan] at h
      cases h
    rw [plan_of_format hc hused] at h
    obtain ⟨program, h⟩ := ofReporting_write h
    split at h
    · cases h
    · cases compare with
      | true => cases h
      | false =>
        refine ⟨?_, nofun⟩
        cases inPlace with
        | true =>
          cases h
          exact .inl rfl
        | false =>
          cases output with
          | none => cases h
          | some path =>
            cases h
            exact .inr rfl
  | _ =>
    refine ⟨.inr ?_, nofun⟩
    rw [plan_of_onScene (by rw [hc]; trivial)] at h
    split at h
    · cases h
    · split at h
      · cases h
      · rw [← hc]
        exact onScene_write h

end Plans

end FieldLang
