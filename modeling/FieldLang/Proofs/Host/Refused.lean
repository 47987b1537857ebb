/-
Which programs have no text in the host language.

* `Stmt.Writes` : a statement assigns or steps a variable, at any depth;
* `HostWriter.statement_ok_iff`, `HostWriter.finalStatement_ok_iff` : a line is written unless it
  writes an angle parameter;
* `HostWriter.document_ok_iff` : a function is written for a program that has a statement and does
  not write an angle parameter;
* `EvalError.Blames`, `execute_error_blames` : a run that may not bind a name comes to a place where
  the program writes it;
* `generate_refused_iff` : the programs of sources that are refused, with the runs that show it.

Design notes: the writer looks at every branch and a run only at those that it takes, so a program
that is refused may have a distance at every point. That is why the runs give one direction only.
-/
import FieldLang.Proofs.Eval.Failures
import FieldLang.Proofs.Host.Compiled
import FieldLang.Proofs.Host.Structure
import FieldLang.Proofs.Writing.Refusals

namespace FieldLang

/-! ### Writes -/

mutual

/-- The statement assigns the variable, or an expression in it steps it. -/
def Stmt.Writes : Stmt → String → Prop
  | .assign target value, name => target = name ∨ value.Steps name
  | .unpack targets value, name => name ∈ targets ∨ value.Steps name
  | .assignEach targets values, name => name ∈ targets ∨ ∃ e ∈ values, e.Steps name
  | .block statements, name => statementsWrite statements name
  | .result value, name => value.Steps name
  | .empty, _ | .misplaced _, _ => False

/-- The same for statements in a row. -/
def statementsWrite : List Stmt → String → Prop
  | [], _ => False
  | s :: ss, name => s.Writes name ∨ statementsWrite ss name

end

theorem statementsWrite_iff {ss : List Stmt} {name : String} :
    statementsWrite ss name ↔ ∃ s ∈ ss, s.Writes name := by
  induction ss with
  | nil => simp [statementsWrite]
  | cons s ss ih => simp [statementsWrite, ih]

/-- What a statement writes is written by one of its simple statements. -/
theorem Stmt.writes_iff_flatten {s : Stmt} {name : String} :
    s.Writes name ↔ ∃ t ∈ s.flatten, t.Writes name := by
  induction s using Stmt.induction with
  | block statements ih =>
    rw [Stmt.Writes, Stmt.flatten, statementsWrite_iff]
    constructor
    · rintro ⟨s, hs, hw⟩
      obtain ⟨t, ht, hw⟩ := (ih s hs).mp hw
      exact ⟨t, mem_flattenAll.mpr ⟨s, hs, ht⟩, hw⟩
    · rintro ⟨t, ht, hw⟩
      obtain ⟨s, hs, ht⟩ := mem_flattenAll.mp ht
      exact ⟨s, hs, (ih s hs).mpr ⟨t, ht, hw⟩⟩
  | _ => simp [Stmt.flatten]

/-- No angle parameter is written. -/
def Stmt.KeepsAngles (s : Stmt) : Prop := ∀ name ∈ readOnlyNames, ¬ s.Writes name

namespace HostWriter

open Writing

variable {w : HostWriter}

/-! ### Lines -/

theorem target_ok_iff {name : String} :
    (∃ text, w.target name = .ok text) ↔ name ∉ readOnlyNames := by
  rw [target]
  by_cases h : name ∈ readOnlyNames
  · simp [h]
  · simp [h]

theorem targets_ok_iff {names : List String} :
    (∃ doc, w.targets names = .ok doc) ↔ ∀ name ∈ names, name ∉ readOnlyNames := by
  have hrow : (∃ doc, w.targets names = .ok doc) ↔ ∃ texts, names.mapM w.target = .ok texts := by
    rw [targets, exists_bind_ok]
    refine exists_congr fun texts => and_iff_left ?_
    split <;> exact ⟨_, rfl⟩
  rw [hrow, exists_mapM_ok]
  exact forall₂_congr fun _ _ => target_ok_iff

theorem keepsAngles_assign {name : String} {value : Expr} :
    (Stmt.assign name value).KeepsAngles ↔
      name ∉ readOnlyNames ∧ ∀ n ∈ readOnlyNames, ¬ value.Steps n := by
  simp only [Stmt.KeepsAngles, Stmt.Writes, not_or, forall_and]
  exact and_congr_left' ⟨fun h hn => h name hn rfl, fun h n hn hname => h (hname ▸ hn)⟩

theorem keepsAngles_unpack {names : List String} {value : Expr} :
    (Stmt.unpack names value).KeepsAngles ↔
      (∀ name ∈ names, name ∉ readOnlyNames) ∧ ∀ n ∈ readOnlyNames, ¬ value.Steps n := by
  simp only [Stmt.KeepsAngles, Stmt.Writes, not_or, forall_and]
  exact and_congr_left' ⟨fun h n hn hr => h n hr hn, fun h n hr hn => h n hn hr⟩

theorem keepsAngles_assignEach {names : List String} {values : List Expr} :
    (Stmt.assignEach names values).KeepsAngles ↔
      (∀ name ∈ names, name ∉ readOnlyNames) ∧ ∀ e ∈ values, ∀ n ∈ readOnlyNames, ¬ e.Steps n := by
  simp only [Stmt.KeepsAngles, Stmt.Writes, not_or, not_exists, not_and, forall_and]
  exact and_congr ⟨fun h n hn hr => h n hr hn, fun h n hr hn => h n hn hr⟩
    ⟨fun h e he n hn => h n hn e he, fun h n hn e he => h e he n hn⟩

/-- A line is written for a simple statement unless it writes an angle parameter. -/
theorem statement_ok_iff {s : Stmt} (hn : s.Named) (hblock : ∀ ss, s ≠ .block ss)
    (hempty : s ≠ .empty) : (∃ doc, w.statement s = .ok doc) ↔ s.KeepsAngles := by
  cases s with
  | assign name value =>
    rw [keepsAngles_assign, ← target_ok_iff (w := w), ← expr_ok_iff (w := w) hn.2, statement]
    simp only [exists_bind_ok, pure_eq_ok, exists_eq', and_true, exists_and_right]
  | unpack names value =>
    rw [keepsAngles_unpack, ← targets_ok_iff (w := w), ← expr_ok_iff (w := w) hn.2.2, statement]
    simp only [exists_bind_ok, pure_eq_ok, exists_eq', and_true, exists_and_right]
  | assignEach names values =>
    obtain ⟨hne, -, hlength, hvalues⟩ := hn
    have hexprs : (∀ e ∈ values, ∀ n ∈ readOnlyNames, ¬ e.Steps n) ↔
        ∀ e ∈ values, ∃ r, w.expr e = .ok r :=
      forall₂_congr fun e he => (expr_ok_iff (namedAll_iff.mp hvalues e he)).symm
    rw [keepsAngles_assignEach, hexprs]
    -- one name alone is assigned its value, several are assigned a tuple
    cases names with
    | nil => exact absurd rfl hne
    | cons name names =>
      cases names with
      | nil =>
        obtain ⟨value, rfl⟩ := List.length_eq_one_iff.mp hlength
        simp only [List.forall_mem_singleton, ← target_ok_iff (w := w), statement, exists_bind_ok,
          pure_eq_ok, exists_eq', and_true, exists_and_right]
      | cons name' names =>
        rw [← targets_ok_iff (w := w), ← exprs_ok_iff, statement]
        · simp only [exists_bind_ok, pure_eq_ok, exists_eq', and_true, exists_and_right]
          exact and_comm
        · simp
  | result value =>
    rcases step_or_ne value with ⟨name, op, rfl⟩ | hother
    · simp only [Stmt.KeepsAngles, Stmt.Writes, Expr.steps_step, statement, exists_bind_ok,
        pure_eq_ok, exists_eq', and_true, target_ok_iff]
      exact ⟨fun h n hn hname => h (hname ▸ hn), fun h hn => h name hn rfl⟩
    · rw [statement_result hother, exists_bind_ok]
      simp only [pure_eq_ok, exists_eq', and_true]
      exact expr_ok_iff hn
  | block ss => exact absurd rfl (hblock ss)
  | empty => exact absurd rfl hempty
  | misplaced display => exact hn.elim

/-- So are the lines of the last statement. -/
theorem finalStatement_ok_iff {s : Stmt} (hn : s.Named) (hblock : ∀ ss, s ≠ .block ss)
    (hempty : s ≠ .empty) : (∃ docs, w.finalStatement s = .ok docs) ↔ s.KeepsAngles := by
  cases s with
  | assign name value =>
    rw [← statement_ok_iff (w := w) hn hblock hempty, finalStatement]
    simp only [exists_bind_ok, pure_eq_ok, exists_eq', and_true]
  | unpack names value =>
    have hline := statement_ok_iff (w := w) hn hblock hempty
    rw [← hline, finalStatement]
    simp only [exists_bind_ok, pure_eq_ok, exists_eq', and_true, exists_and_right]
    exact and_iff_left_of_imp fun h =>
      targets_ok_iff.mpr (keepsAngles_unpack.mp (hline.mp h)).1
  | assignEach names values =>
    obtain ⟨last, hlast⟩ := Option.ne_none_iff_exists'.mp
      fun h => hn.1 (List.getLast?_eq_none_iff.mp h)
    rw [← statement_ok_iff (w := w) hn hblock hempty, finalStatement]
    simp only [hlast, exists_bind_ok, pure_eq_ok, exists_eq', and_true]
  | result value =>
    simp only [finalStatement, exists_bind_ok, pure_eq_ok, exists_eq', and_true]
    exact expr_ok_iff hn
  | block ss => exact absurd rfl (hblock ss)
  | empty => exact absurd rfl hempty
  | misplaced display => exact hn.elim

/-! ### Functions -/

theorem keepsAngles_iff_simpleStatements {s : Stmt} :
    s.KeepsAngles ↔ ∀ t ∈ simpleStatements s, t.KeepsAngles := by
  constructor
  · intro h t ht name hname hw
    exact h name hname (Stmt.writes_iff_flatten.mpr ⟨t, List.mem_of_mem_filter ht, hw⟩)
  · intro h name hname hw
    obtain ⟨t, ht, hw⟩ := Stmt.writes_iff_flatten.mp hw
    refine h t (List.mem_filter.mpr ⟨ht, ?_⟩) name hname hw
    cases t with
    | empty => exact hw.elim
    | _ => rfl

/-- Under a name that it may have, a function is written for a program that has a statement and
writes no angle parameter. -/
theorem document_ok_iff {s : Stmt} (hn : s.Named) (hname : w.checkName = .ok ()) :
    (∃ doc, w.document s = .ok doc) ↔ simpleStatements s ≠ [] ∧ s.KeepsAngles := by
  have hall := allSimple_simpleStatements hn
  rw [keepsAngles_iff_simpleStatements]
  -- all lines but the last are written as statements, the last one together with what is returned
  constructor
  · rintro ⟨doc, hdoc⟩
    obtain ⟨-, ss, last, lines, final, hsimple, hlines, hfinal, -⟩ := document_ok hdoc
    rw [hsimple] at hall ⊢
    refine ⟨by simp, fun t ht => ?_⟩
    obtain ⟨htn, hblock, hempty⟩ := hall t ht
    rcases List.mem_append.mp ht with hmem | hmem
    · exact (statement_ok_iff htn hblock hempty).mp (exists_mapM_ok.mp ⟨lines, hlines⟩ t hmem)
    · cases List.mem_singleton.mp hmem
      exact (finalStatement_ok_iff htn hblock hempty).mp ⟨final, hfinal⟩
  · rintro ⟨hne, hkeeps⟩
    refine exists_bind_ok.mpr ⟨(), hname, ?_⟩
    dsimp only
    split
    · next hnone => exact absurd (List.getLast?_eq_none_iff.mp hnone) hne
    · next last hlast =>
      have hmem : last ∈ simpleStatements s := List.mem_of_getLast? hlast
      obtain ⟨lines, hlines⟩ :
          ∃ lines, (simpleStatements s).dropLast.mapM w.statement = .ok lines := by
        refine exists_mapM_ok.mpr fun t ht => ?_
        have ht := List.mem_of_mem_dropLast ht
        obtain ⟨htn, hblock, hempty⟩ := hall t ht
        exact (statement_ok_iff htn hblock hempty).mpr (hkeeps t ht)
      obtain ⟨hlastn, hblock, hempty⟩ := hall last hmem
      obtain ⟨final, hfinal⟩ :=
        (finalStatement_ok_iff (w := w) hlastn hblock hempty).mpr (hkeeps last hmem)
      exact exists_bind_ok.mpr ⟨lines, hlines, exists_bind_ok.mpr ⟨final, hfinal, _, rfl⟩⟩

end HostWriter

/-! ### Runs -/

/-- A failure of what writes the given names: if a name may not be bound it is one of these, and
there is a value to be had. -/
def EvalError.Blames (writes : String → Prop) : EvalError → Prop
  | .readOnly name => name ∈ readOnlyNames ∧ writes name
  | .noExpression => False
  | _ => True

theorem EvalError.Blames.mono {writes writes' : String → Prop} {err : EvalError}
    (h : err.Blames writes) (hsub : ∀ name, writes name → writes' name) : err.Blames writes' := by
  cases err with
  | readOnly name => exact h.imp_right (hsub name)
  | noExpression => exact h
  | _ => trivial

section Runs

variable {σ β : Type} [Carrier σ β] {angles : Angles} {env : Env σ β} {err : EvalError}

/-- Only a step keeps an expression from binding a name. -/
theorem evalExpr_error_blames {e : Expr} (h : evalExpr angles env e = .error err) :
    err.Blames e.Steps := by
  -- an operand fails, or the node itself, which blames no name unless it is a step
  induction e using Expr.induction generalizing env err with
  | number value => simp at h
  | name name =>
    obtain ⟨-, rfl⟩ := evalExpr_variable_error.mp h
    trivial
  | binary op lhs rhs ihL ihR =>
    have hL {env : Env σ β} (h : evalExpr angles env lhs = .error err) :
        err.Blames (Expr.binary op lhs rhs).Steps :=
      (ihL h).mono fun _ hsteps => Expr.steps_binary.mpr (.inl hsteps)
    have hR {env : Env σ β} (h : evalExpr angles env rhs = .error err) :
        err.Blames (Expr.binary op lhs rhs).Steps :=
      (ihR h).mono fun _ hsteps => Expr.steps_binary.mpr (.inr hsteps)
    cases hop : op.connective? with
    | none =>
      rcases (evalExpr_binary_error hop).mp h with hl | ⟨vL, envL, -, hr | ⟨vR, envR, -, ha⟩⟩
      · exact hL hl
      · exact hR hr
      · rw [applyBinary_error ha]
        trivial
    | some k =>
      rcases (evalExpr_connective_error hop).mp h with
        hl | ⟨w, envL, -, ⟨-, rfl⟩ | ⟨b, -, -, hr | ⟨vR, envR, -, ha⟩⟩⟩
      · exact hL hl
      · trivial
      · exact hR hr
      · rw [applyConnective_error ha]
        trivial
  | negate operand ih =>
    rcases evalExpr_negate_error.mp h with hoperand | ⟨w, env₁, -, -, rfl⟩
    · exact (ih hoperand).mono fun _ hsteps => Expr.steps_negate.mpr hsteps
    · trivial
  | call f args ih =>
    rcases evalExpr_call_error.mp h with ⟨-, rfl⟩ | ⟨-, hfails | ⟨xs, env₁, e, -, -, rfl⟩⟩
    · trivial
    · rcases evalArgs_error_of_mem hfails with ⟨e, he, env₁, herr⟩ | ⟨_, _, rfl⟩
      · exact (ih e he herr).mono fun _ hsteps => Expr.steps_call.mpr ⟨e, he, hsteps⟩
      · trivial
    · trivial
  | conditional c t f ihC ihT ihF =>
    have hT {env : Env σ β} (h : evalExpr angles env t = .error err) :
        err.Blames (Expr.conditional c t f).Steps :=
      (ihT h).mono fun _ hsteps => Expr.steps_conditional.mpr (.inr (.inl hsteps))
    have hF {env : Env σ β} (h : evalExpr angles env f = .error err) :
        err.Blames (Expr.conditional c t f).Steps :=
      (ihF h).mono fun _ hsteps => Expr.steps_conditional.mpr (.inr (.inr hsteps))
    rcases evalExpr_conditional_error.mp h with hc | ⟨w, env₁, -, ⟨-, rfl⟩ | ⟨mask, -, hw⟩⟩
    · exact (ihC hc).mono fun _ hsteps => Expr.steps_conditional.mpr (.inl hsteps)
    · trivial
    · rcases hw with ⟨-, ht⟩ | ⟨-, hf⟩ | ⟨-, ht | ⟨vT, envT, -, hf | ⟨vF, envF, -, -, rfl⟩⟩⟩
      · exact hT ht
      · exact hF hf
      · exact hT ht
      · exact hF hf
      · trivial
  | step target op =>
    rcases evalExpr_step_error.mp h with ⟨-, rfl⟩ | ⟨w, -, -, rfl⟩ | ⟨x, -, hmem, rfl⟩
    · trivial
    · trivial
    · exact ⟨hmem, Expr.steps_step.mpr rfl⟩
  | misplaced display =>
    rw [evalExpr_misplaced] at h
    cases h
    trivial

/-- Only a write keeps a statement from binding a name. -/
theorem execute_error_blames {t : Stmt} {s : State σ β} (h : execute angles s t = .error err) :
    err.Blames t.Writes := by
  -- an expression of the statement fails, or an assignment that it makes
  induction t using Stmt.induction generalizing s with
  | assign target value =>
    rcases execute_assign_error.mp h with hv | ⟨w, env₁, -, ha⟩
    · exact (evalExpr_error_blames hv).mono fun _ => .inr
    · obtain ⟨hmem, rfl⟩ := assign_error.mp ha
      exact ⟨hmem, .inl rfl⟩
  | unpack targets value =>
    rcases execute_unpack_error.mp h with hv | ⟨w, env₁, -, ⟨-, rfl⟩ | ⟨axes, -, -, ha⟩⟩
    · exact (evalExpr_error_blames hv).mono fun _ => .inr
    · trivial
    · obtain ⟨binding, hmem, hread, rfl⟩ := assignAll_error_of_mem ha
      exact ⟨hread, .inl (List.of_mem_zip hmem).1⟩
  | assignEach targets values =>
    rcases execute_assignEach_error.mp h with hvs | ⟨vs, env₁, -, ha⟩
    · obtain ⟨e, he, env₁, herr⟩ := evalAll_error_of_mem hvs
      exact (evalExpr_error_blames herr).mono fun _ hsteps => .inr ⟨e, he, hsteps⟩
    · obtain ⟨binding, hmem, hread, rfl⟩ := assignAll_error_of_mem ha
      exact ⟨hread, .inl (List.of_mem_zip hmem).1⟩
  | block statements ih =>
    rw [execute_block] at h
    obtain ⟨t, ht, s₁, herr⟩ := executeAll_error_of_mem h
    exact (ih t ht herr).mono fun _ hw => statementsWrite_iff.mpr ⟨t, ht, hw⟩
  | result value => exact evalExpr_error_blames (execute_result_error.mp h)
  | empty => simp at h
  | misplaced display =>
    rw [execute_misplaced] at h
    cases h
    trivial

/-- Of a list of expressions that is not empty, the last one has a value. -/
theorem evalAll_getLast?_isSome {es : List Expr} {vs : List (Value σ β)} {env' : Env σ β}
    (hne : es ≠ []) (h : evalAll angles env es = .ok (vs, env')) : vs.getLast?.isSome := by
  cases es with
  | nil => exact absurd rfl hne
  | cons e es =>
    obtain ⟨w, env₁, rest, -, -, rfl⟩ := evalAll_cons_ok.mp h
    simp

/-- A simple statement that is not empty has a value. -/
theorem execute_last_isSome {t : Stmt} {s s' : State σ β} (hn : t.Named)
    (hblock : ∀ ss, t ≠ .block ss) (hempty : t ≠ .empty) (h : execute angles s t = .ok s') :
    s'.last.isSome := by
  cases t with
  | assign target value =>
    obtain ⟨w, env₁, -, -, rfl⟩ := execute_assign_ok.mp h
    rfl
  | unpack targets value =>
    obtain ⟨w, env₁, axes, env₂, -, -, -, -, rfl⟩ := execute_unpack_ok.mp h
    rfl
  | assignEach targets values =>
    obtain ⟨hne, -, hlength, -⟩ := hn
    obtain ⟨vs, env₁, env₂, hvs, -, rfl⟩ := execute_assignEach_ok.mp h
    have hvalues : values ≠ [] := by
      rintro rfl
      exact hne (List.length_eq_zero_iff.mp hlength.symm)
    simp [evalAll_getLast?_isSome hvalues hvs]
  | result value =>
    obtain ⟨w, env₁, -, rfl⟩ := execute_result_ok.mp h
    rfl
  | block ss => exact absurd rfl (hblock ss)
  | empty => exact absurd rfl hempty
  | misplaced display => exact hn.elim

/-- A run of simple statements that are not empty, if there is any, has a value. -/
theorem executeAll_last_isSome {ss : List Stmt} {s s' : State σ β}
    (hall : HostWriter.AllSimple ss) (hne : ss ≠ []) (h : executeAll angles s ss = .ok s') :
    s'.last.isSome := by
  obtain ⟨front, last, rfl⟩ := (List.eq_nil_or_concat ss).resolve_left hne
  rw [List.concat_eq_append] at hall h
  rw [executeAll_append] at h
  obtain ⟨s₁, -, h⟩ := bind_eq_ok.mp h
  rw [executeAll_singleton] at h
  obtain ⟨hn, hblock, hempty⟩ := hall last (by simp)
  exact execute_last_isSome hn hblock hempty h

end Runs

/-! ### Programs of sources -/

/-- A program without a statement, or one that writes an angle parameter. -/
def Inexpressible (p : Program) : Prop :=
  (∀ t ∈ p, t = .empty) ∨ ∃ name ∈ readOnlyNames, (Stmt.block p).Writes name

/-- A program is refused for what it is, and not for its name or its target. -/
def Refused (written : Written (List Char)) : Prop :=
  ∃ err, written = .error err ∧ (err = .noStatements ∨ ∃ name, err = .readOnly name)

section Sources

variable {policy : Option Policy} {source : List Char} {p : Program}

/-- A program of a source has a simple statement that is not empty unless all its statements are. -/
theorem simpleStatements_eq_nil_iff (hp : (parse policy source).outcome = .ok p) :
    HostWriter.simpleStatements (.block p) = [] ↔ ∀ t ∈ p, t = .empty := by
  rw [HostWriter.simpleStatements, flatten_of_read (read_of_parse hp), List.filter_eq_nil_iff]
  refine forall₂_congr fun t _ => ?_
  cases t <;> simp

/-- A run that may not bind a name, or has no value at the end, is one of a program that cannot be
expressed. -/
theorem inexpressible_of_evaluate (hp : (parse policy source).outcome = .ok p) {angles : Angles}
    {point : Point} {err : EvalError} (h : evaluate angles (.block p) point = .error err)
    (herr : err = .noExpression ∨ ∃ name, err = .readOnly name) : Inexpressible p := by
  rcases bind_eq_error.mp h with hrun | ⟨s, hrun, hresult⟩
  · have hblames := execute_error_blames hrun
    rcases herr with rfl | ⟨name, rfl⟩
    · exact hblames.elim
    · exact .inr ⟨name, hblames⟩
  · refine .inl ((simpleStatements_eq_nil_iff hp).mp ?_)
    by_contra hne
    rw [← HostWriter.executeAll_simpleStatements] at hrun
    have hall := HostWriter.allSimple_simpleStatements (named_of_parse hp)
    obtain ⟨v, hv⟩ := Option.isSome_iff_exists.mp (executeAll_last_isSome hall hne hrun)
    rw [State.result, hv] at hresult
    cases v <;> cases hresult <;> simp at herr

/-- The writer refuses a function that may have its name if it refuses its document. -/
theorem generate_of_document_error {options : Options} {s : Stmt} {err : WriteError}
    (htarget : options.target = "python")
    (h : HostWriter.document ⟨options.functionName, options.a0, options.a1⟩ s = .error err) :
    generate options s = .error err := by
  have hof : Target.ofName options.target = .ok .python := by
    rw [htarget]
    rfl
  simp only [generate, hof, h, bind, Except.bind]

/-- A document has a text in every positive width. -/
theorem generate_of_document_ok {options : Options} {s : Stmt} {doc : Layout.Doc}
    (htarget : options.target = "python") (hwidth : 0 < options.width)
    (h : HostWriter.document ⟨options.functionName, options.a0, options.a1⟩ s = .ok doc) :
    ∃ text, generate options s = .ok text := by
  have hof : Target.ofName options.target = .ok .python := by
    rw [htarget]
    rfl
  obtain ⟨t, -, hrender⟩ := Layout.render_eq hwidth doc
  simp only [generate, hof, h, hrender, bind, Except.bind, mapError_ok]
  exact ⟨_, rfl⟩

/-- A program of a source is refused as a function that may have its name if it has no statement
or writes an angle parameter somewhere, and else it has a text. So it is refused whenever a
run, with any angles, may not bind a name or comes to its end without a value. -/
theorem generate_refused_iff (hp : (parse policy source).outcome = .ok p) {options : Options}
    (htarget : options.target = "python") (hwidth : 0 < options.width)
    (hname : HostWriter.checkName ⟨options.functionName, options.a0, options.a1⟩ = .ok ()) :
    (Refused (generate options (.block p)) ↔ Inexpressible p) ∧
      (¬ Inexpressible p → ∃ text, generate options (.block p) = .ok text) ∧
      ∀ angles point err, evaluate angles (.block p) point = .error err →
        (err = .noExpression ∨ ∃ name, err = .readOnly name) →
        Refused (generate options (.block p)) := by
  have hn := named_of_parse hp
  have hdocument : (∃ doc, HostWriter.document ⟨options.functionName, options.a0, options.a1⟩
      (.block p) = .ok doc) ↔ ¬ Inexpressible p := by
    rw [HostWriter.document_ok_iff hn hname, Inexpressible, not_or, Ne,
      simpleStatements_eq_nil_iff hp]
    simp only [Stmt.KeepsAngles, not_exists, not_and]
  -- with a known target and a positive width nothing but the writer can refuse the program
  have hwritten : ¬ Inexpressible p → ∃ text, generate options (.block p) = .ok text := by
    intro h
    obtain ⟨doc, hdoc⟩ := hdocument.mpr h
    exact generate_of_document_ok htarget hwidth hdoc
  have hrefused : Inexpressible p → Refused (generate options (.block p)) := by
    intro h
    cases hdoc : HostWriter.document ⟨options.functionName, options.a0, options.a1⟩ (.block p) with
    | ok doc => exact absurd h (hdocument.mp ⟨doc, hdoc⟩)
    | error err =>
      exact ⟨err, generate_of_document_error htarget hdoc,
        HostWriter.document_refused hn hname hdoc⟩
  refine ⟨⟨fun ⟨err, herr, _⟩ => ?_, hrefused⟩, hwritten, fun angles point err h herr =>
    hrefused (inexpressible_of_evaluate hp h herr)⟩
  by_contra h
  obtain ⟨text, htext⟩ := hwritten h
  cases htext.symm.trans herr

end Sources

/-- A program that steps an angle parameter where `x` is less than `y`. -/
def branchStep : Program :=
  [.result (.conditional (.binary .less (.variable "x") (.variable "y")) (.step "a0" .increment)
    (.variable "x"))]

/-- It is refused, although it has a distance at some points. -/
theorem branchStep_refused : ∃ source,
    (parse none source).outcome = .ok branchStep ∧
      evaluate ⟨0, 0⟩ (.block branchStep) ⟨1, 0, 0⟩ = .ok 1 ∧
      evaluate ⟨0, 0⟩ (.block branchStep) ⟨0, 1, 0⟩ = .error (.readOnly "a0") ∧
      Refused (generate { width := 10 } (.block branchStep)) := by
  have hx : IsName "x" := HostWriter.isName_given (by decide)
  have hy : IsName "y" := HostWriter.isName_given (by decide)
  have ha : IsName "a0" := HostWriter.isName_given (by decide)
  have hnamed : (Stmt.block branchStep).Named := ⟨⟨⟨hx, hy⟩, ha, hx⟩, trivial⟩
  obtain ⟨source, -, hparse, -⟩ := unparse_parse hnamed
    (by simp [Stmt.numbers, branchStep, numbersOfStatements, Expr.numbers])
    (show (0 : Int) < 10 by decide)
  have hnormal : (Stmt.block branchStep).normalForm = branchStep := rfl
  rw [hnormal] at hparse
  have hfails : evaluate ⟨0, 0⟩ (.block branchStep) ⟨0, 1, 0⟩ = .error (.readOnly "a0") := rfl
  obtain ⟨-, -, hruns⟩ := @generate_refused_iff _ _ _ hparse { width := 10 } rfl (by decide)
    (HostWriter.checkName_ok.mpr ⟨by decide, by decide, by decide⟩)
  exact ⟨source, hparse, rfl, hfails, hruns ⟨0, 0⟩ ⟨0, 1, 0⟩ _ hfails (.inr ⟨"a0", rfl⟩)⟩

end FieldLang
