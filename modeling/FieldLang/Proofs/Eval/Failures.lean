/-
The failures that a program can have.

* `EvalError.IsRuntime` : failures for which the program is to blame;
* `meaning_of_accepts` : for each argument count that a function accepts it has a meaning, and the
  vectors that it yields have two or three components;
* `evalExpr_error_runtime`, `execute_error_runtime` : expressions and statements of parsed programs
  have no other failures;
* `parsed_runs` : a parsed program has a distance at every point, or distances at all of some
  points, or it has such a failure.

Design notes: that octaves are counted at no points at all is the one failure that depends on the
carrier. What is needed of a carrier is therefore that counts which are not finite are the only
ones that fail.
-/
import FieldLang.Proofs.Eval.Idle
import FieldLang.Proofs.Writing.Parsed
import FieldLang.Proofs.Writing.RoundTrip

namespace FieldLang

/-- A failure of the program, and not of the evaluator: no node is out of place, and no function
is called in a way that it has no meaning for, except with counts that are not finite. -/
def EvalError.IsRuntime : EvalError → Prop
  | .call .infiniteOctaves => True
  | .call _ | .notExpression _ | .notStatement _ => False
  | _ => True

/-! ### Functions -/

/-- The meaning is a number, or a vector with two or three components. -/
def Meaning.Sized {n : Nat} : Meaning n → Prop
  | .scalar _ => True
  | .vector cs => cs.length = 2 ∨ cs.length = 3

/-- A function with a list of argument counts has a meaning for each of them. -/
theorem meaning_of_mem_counts (angles : Angles) {f : Builtin} {counts : List Nat}
    (h : f.arity = .oneOf counts) {n : Nat} (hn : n ∈ counts) :
    ∃ m, f.meaning angles n = .ok m ∧ m.Sized := by
  cases f <;> cases h <;> simp only [List.mem_cons, List.not_mem_nil, or_false] at hn <;>
    rcases hn with rfl | rfl | rfl | rfl <;>
    first
      | exact ⟨_, rfl, trivial⟩
      | exact ⟨_, rfl, .inl rfl⟩
      | exact ⟨_, rfl, .inr rfl⟩

/-- A function that takes any number of arguments from a least one on has a meaning for each. -/
theorem meaning_of_least (angles : Angles) {f : Builtin} {least : Nat} (h : f.arity = .atLeast least)
    {n : Nat} (hn : least ≤ n) : ∃ m, f.meaning angles n = .ok m ∧ m.Sized := by
  obtain ⟨k, rfl⟩ := Nat.exists_eq_add_of_le' hn
  cases f <;> cases h
  case union | intersect => exact ⟨_, rfl, trivial⟩
  -- a sole distance has a meaning of its own
  case roundMin | roundMax => cases k <;> exact ⟨_, rfl, trivial⟩

theorem meaning_of_accepts (angles : Angles) {f : Builtin} {n : Nat}
    (h : f.arity.accepts n = true) : ∃ m, f.meaning angles n = .ok m ∧ m.Sized := by
  cases ha : f.arity with
  | oneOf counts =>
    rw [ha, Arity.accepts, List.contains_iff_mem] at h
    exact meaning_of_mem_counts angles ha h
  | atLeast least =>
    rw [ha, Arity.accepts, decide_eq_true_eq] at h
    exact meaning_of_least angles ha h

section

variable {σ β : Type} [Carrier σ β] {angles : Angles} {env : Env σ β} {err : EvalError}

theorem Meaning.Sized.apply {n : Nat} {m : Meaning n} (h : m.Sized) (xs : Vector σ n) :
    ∃ v : Value σ β, m.apply xs = .ok v := by
  cases m with
  | scalar c => exact ⟨_, rfl⟩
  | vector cs =>
    match cs, h with
    | [_, _], _ => exact ⟨_, rfl⟩
    | [_, _, _], _ => exact ⟨_, rfl⟩

theorem checkOctaveArgument_error {n : Nat} {f : Builtin} {xs : Vector σ n} {e : CallError}
    (h : checkOctaveArgument (β := β) f xs = .error e) :
    ∃ x : σ, Carrier.checkOctaves β x = .error e := by
  rw [checkOctaveArgument] at h
  cases ho : f.octaveArgument n with
  | none =>
    rw [ho] at h
    cases h
  | some i =>
    rw [ho] at h
    exact ⟨_, h⟩

/-- A function that accepts the number of its arguments can only fail to count octaves. -/
theorem applyBuiltin_error {f : Builtin} {xs : List σ} {e : CallError}
    (hacc : f.arity.accepts xs.length = true) (h : applyBuiltin (β := β) angles f xs = .error e) :
    ∃ x : σ, Carrier.checkOctaves β x = .error e := by
  obtain ⟨m, hm, hsized⟩ := meaning_of_accepts angles hacc
  obtain ⟨v, hv⟩ := hsized.apply (β := β) (Vector.mk xs.toArray rfl)
  rw [applyBuiltin, applyBuiltinTo, bind_eq_error] at h
  rcases h with hmeaning | ⟨m', hm', hrest⟩
  · cases hm.symm.trans hmeaning
  · cases hm.symm.trans hm'
    rcases bind_eq_error.mp hrest with hcheck | ⟨-, -, happly⟩
    · exact checkOctaveArgument_error hcheck
    · cases hv.symm.trans happly

/-! ### Expressions and statements -/

theorem applyBinary_error {op : BinOp} {v w : Value σ β} (h : applyBinary op v w = .error err) :
    err = .operandKinds op v.kind (some w.kind) := by
  -- whichever kinds the operands have, the one failure names them
  cases v with
  | scalar x =>
    cases w with
    | scalar y =>
      simp only [applyBinary] at h
      split at h
      · cases h
      · cases h
      · exact (Except.error.inj h).symm
    | boolean b => exact (Except.error.inj h).symm
    | vec2 x y => exact (Except.error.inj h).symm
    | vec3 x y z => exact (Except.error.inj h).symm
  | boolean b =>
    cases w with
    | boolean b' =>
      simp only [applyBinary] at h
      split at h
      · cases h
      · exact (Except.error.inj h).symm
    | scalar x => exact (Except.error.inj h).symm
    | vec2 x y => exact (Except.error.inj h).symm
    | vec3 x y z => exact (Except.error.inj h).symm
  | vec2 x y => exact (Except.error.inj h).symm
  | vec3 x y z => exact (Except.error.inj h).symm

theorem applyConnective_error {k : Connective} {b : β} {w : Value σ β}
    (h : applyConnective k b w = .error err) :
    err = .operandKinds k.toBinOp .boolean (some w.kind) := by
  cases w with
  | boolean b' => cases h
  | scalar x => exact (Except.error.inj h).symm
  | vec2 x y => exact (Except.error.inj h).symm
  | vec3 x y z => exact (Except.error.inj h).symm

theorem evalArgs_length {f : Builtin} {place : Nat} {args : List Expr} {xs : List σ}
    {env' : Env σ β} (h : evalArgs angles env f place args = .ok (xs, env')) :
    xs.length = args.length := by
  induction args generalizing env place xs with
  | nil =>
    obtain ⟨rfl, -⟩ := evalArgs_nil_ok.mp h
    rfl
  | cons e es ih =>
    obtain ⟨x, env₁, rest, -, hes, rfl⟩ := evalArgs_cons_ok.mp h
    rw [List.length_cons, List.length_cons, ih hes]

variable (hoctaves : ∀ (x : σ) (e : CallError), Carrier.checkOctaves β x = .error e →
  e = .infiniteOctaves)
include hoctaves

/-- An expression whose nodes are in place has no value for a failure of the program. -/
theorem evalExpr_error_runtime {e : Expr} (hn : e.Named)
    (h : evalExpr angles env e = .error err) : err.IsRuntime := by
  induction e using Expr.induction generalizing env err with
  | number value => simp at h
  | name name =>
    obtain ⟨-, rfl⟩ := evalExpr_variable_error.mp h
    trivial
  | binary op lhs rhs ihL ihR =>
    cases hop : op.connective? with
    | none =>
      rcases (evalExpr_binary_error hop).mp h with hL | ⟨vL, envL, -, hR | ⟨vR, envR, -, ha⟩⟩
      · exact ihL hn.1 hL
      · exact ihR hn.2 hR
      · rw [applyBinary_error ha]
        trivial
    | some k =>
      rcases (evalExpr_connective_error hop).mp h with
        hL | ⟨w, envL, -, ⟨-, rfl⟩ | ⟨b, -, -, hR | ⟨vR, envR, -, ha⟩⟩⟩
      · exact ihL hn.1 hL
      · trivial
      · exact ihR hn.2 hR
      · rw [applyConnective_error ha]
        trivial
  | negate operand ih =>
    rcases evalExpr_negate_error.mp h with hoperand | ⟨w, env₁, -, -, rfl⟩
    · exact ih hn hoperand
    · trivial
  | call f args ih =>
    have hargs := namedAll_iff.mp hn
    rcases evalExpr_call_error.mp h with ⟨-, rfl⟩ | ⟨hacc, hfails | ⟨xs, env₁, e, hxs, ha, rfl⟩⟩
    · trivial
    · rcases evalArgs_error_of_mem hfails with ⟨e, he, env₁, herr⟩ | ⟨_, _, rfl⟩
      · exact ih e he (hargs e he) herr
      · trivial
    -- the count was accepted, so the function itself can only fail to count octaves
    · rw [← evalArgs_length hxs] at hacc
      obtain ⟨x, hx⟩ := applyBuiltin_error hacc ha
      rw [hoctaves x e hx]
      trivial
  | conditional c t f ihC ihT ihF =>
    obtain ⟨hnC, hnT, hnF⟩ := hn
    rcases evalExpr_conditional_error.mp h with hC | ⟨w, env₁, -, ⟨-, rfl⟩ | ⟨mask, -, hw⟩⟩
    · exact ihC hnC hC
    · trivial
    · rcases hw with ⟨-, hT⟩ | ⟨-, hF⟩ | ⟨-, hT | ⟨vT, envT, -, hF | ⟨vF, envF, -, -, rfl⟩⟩⟩
      · exact ihT hnT hT
      · exact ihF hnF hF
      · exact ihT hnT hT
      · exact ihF hnF hF
      · trivial
  | step name op =>
    rcases evalExpr_step_error.mp h with ⟨-, rfl⟩ | ⟨w, -, -, rfl⟩ | ⟨x, -, -, rfl⟩
    · trivial
    · trivial
    · trivial
  | misplaced display => exact hn.elim

omit [Carrier σ β] hoctaves in
theorem assignAll_error_runtime {bindings : List (String × Value σ β)}
    (h : assignAll env bindings = .error err) : err.IsRuntime := by
  obtain ⟨binding, -, -, rfl⟩ := assignAll_error_of_mem h
  trivial

theorem execute_error_runtime {t : Stmt} {s : State σ β} (hn : t.Named)
    (h : execute angles s t = .error err) : err.IsRuntime := by
  induction t using Stmt.induction generalizing s with
  | assign name value =>
    rcases execute_assign_error.mp h with hv | ⟨w, env₁, -, ha⟩
    · exact evalExpr_error_runtime hoctaves hn.2 hv
    · obtain ⟨-, rfl⟩ := assign_error.mp ha
      trivial
  | unpack names value =>
    rcases execute_unpack_error.mp h with hv | ⟨w, env₁, -, ⟨-, rfl⟩ | ⟨axes, -, -, ha⟩⟩
    · exact evalExpr_error_runtime hoctaves hn.2.2 hv
    · trivial
    · exact assignAll_error_runtime ha
  | assignEach names values =>
    rcases execute_assignEach_error.mp h with hvs | ⟨vs, env₁, -, ha⟩
    · obtain ⟨e, he, env₁, herr⟩ := evalAll_error_of_mem hvs
      exact evalExpr_error_runtime hoctaves (namedAll_iff.mp hn.2.2.2 e he) herr
    · exact assignAll_error_runtime ha
  | block statements ih =>
    rw [execute_block] at h
    obtain ⟨t, ht, s₁, herr⟩ := executeAll_error_of_mem h
    exact ih t ht (statementsNamed_iff.mp hn t ht) herr
  | result value => exact evalExpr_error_runtime hoctaves hn (execute_result_error.mp h)
  | empty => simp at h
  | misplaced display => exact hn.elim

end

/-! ### Programs -/

theorem State.result_error {σ β : Type} {s : State σ β} {err : EvalError}
    (h : s.result = .error err) : err.IsRuntime := by
  rw [State.result] at h
  split at h
  · cases h
    trivial
  · cases h
  · cases h
    trivial

theorem checkOctavesAt_error {x : Float} {e : CallError} (h : checkOctavesAt x = .error e) :
    e = .infiniteOctaves := by
  rw [checkOctavesAt] at h
  split at h
  · cases h
  · exact (Except.error.inj h).symm

/-- At a point a statement whose nodes are in place has a distance, or a failure of its own. -/
theorem evaluate_ok_or_runtime (angles : Angles) {t : Stmt} (hn : t.Named) (point : Point) :
    (∃ d, evaluate angles t point = .ok d) ∨
      ∃ err, evaluate angles t point = .error err ∧ err.IsRuntime := by
  cases h : evaluate angles t point with
  | ok d => exact .inl ⟨d, rfl⟩
  | error err =>
    refine .inr ⟨err, rfl, ?_⟩
    rw [evaluate, runAt, bind_eq_error] at h
    rcases h with hrun | ⟨s, -, hresult⟩
    · exact execute_error_runtime (fun _ _ => checkOctavesAt_error) hn hrun
    · exact State.result_error hresult

/-- At some points a statement whose nodes are in place has a distance for each of them, or a failure
of its own. -/
theorem evaluateMany_ok_or_runtime (angles : Angles) {t : Stmt} (hn : t.Named)
    {points : List Point} (hne : points ≠ []) :
    (∃ distances, evaluateMany angles t points = .ok distances ∧
        distances.length = points.length) ∨
      ∃ err, evaluateMany angles t points = .error err ∧ err.IsRuntime := by
  cases h : evaluateMany angles t points with
  | ok distances => exact .inl ⟨distances, rfl, length_of_evaluateMany h⟩
  | error err =>
    refine .inr ⟨err, rfl, ?_⟩
    rcases evaluateMany_error.mp h with hrun | ⟨S, -, hresult⟩
    · refine execute_error_runtime (fun x e hx => ?_) hn hrun
      obtain ⟨i, hi⟩ := Column.checkOctaves_error (mt List.length_eq_zero_iff.mp hne) hx
      exact checkOctavesAt_error hi
    · exact State.result_error hresult

/-- A parsed program has a distance at a point, or it has a failure of its own; so it does at
any number of points, with a distance for each, unless there are none. A merge of two environments
finds each variable in both. -/
theorem parsed_runs {policy : Option Policy} {source : List Char} {p : Program}
    (hp : (parse policy source).outcome = .ok p) (angles : Angles) :
    (∀ point : Point, (∃ d, evaluate angles (.block p) point = .ok d) ∨
        ∃ err, evaluate angles (.block p) point = .error err ∧ err.IsRuntime) ∧
      (∀ points : List Point, points ≠ [] →
        (∃ distances, evaluateMany angles (.block p) points = .ok distances ∧
            distances.length = points.length) ∨
          ∃ err, evaluateMany angles (.block p) points = .error err ∧ err.IsRuntime) ∧
      ∀ (points : List Point) (mask : Column points.length Bool)
        (taken other : Env (Column points.length Float) (Column points.length Bool)),
        MergesIn angles (initialState angles (columns points).1 (columns points).2.1
          (columns points).2.2) (.block p) mask taken other →
        ∀ name v, (name, v) ∈ taken → ∃ v', other.get? name = some v' := by
  have hn := named_of_parse hp
  refine ⟨evaluate_ok_or_runtime angles hn, fun points => evaluateMany_ok_or_runtime angles hn,
    fun points mask taken other hm name v hmem => ?_⟩
  obtain ⟨v', u, hv', -⟩ := (hm.found (initialEnv_distinct _ _ _)).2 name v hmem
  exact ⟨v', hv'⟩

/-- The program `nz(x, y, z, 1, 0, 1 / x)`. -/
def inverseOctaves : Program :=
  [.result (.call .valueNoise [.variable "x", .variable "y", .variable "z", .number 1, .number 0,
    .binary .div (.number 1) (.variable "x")])]

/-- It is read from a source, and where `x` is zero its octaves cannot be counted, which is a
failure of its own. -/
theorem inverseOctaves_runs : ∃ source, (parse none source).outcome = .ok inverseOctaves ∧
    (∃ err, evaluate {} (.block inverseOctaves) ⟨0, 0, 0⟩ = .error err ∧ err.IsRuntime) ∧
      ∃ err, evaluateMany {} (.block inverseOctaves) [⟨0, 0, 0⟩, ⟨1, 0, 0⟩] = .error err ∧
        err.IsRuntime := by
  have hx : IsName "x" := isName_iff.mpr ⟨'x', [], rfl, by decide, by simp, by decide⟩
  have hy : IsName "y" := isName_iff.mpr ⟨'y', [], rfl, by decide, by simp, by decide⟩
  have hz : IsName "z" := isName_iff.mpr ⟨'z', [], rfl, by decide, by simp, by decide⟩
  have hn : (Stmt.block inverseOctaves).Named :=
    ⟨⟨hx, hy, hz, trivial, trivial, ⟨trivial, hx⟩, trivial⟩, trivial⟩
  -- what the program is written as is a source of it
  obtain ⟨source, -, hparse, -⟩ := unparse_parse hn
    (by simp [Stmt.numbers, inverseOctaves, numbersOfStatements, Expr.numbers, numbersAll]; decide)
    (show (0 : Int) < 80 by decide)
  have hnormal : (Stmt.block inverseOctaves).normalForm = inverseOctaves := rfl
  rw [hnormal] at hparse
  obtain ⟨hpoint, hpoints, -⟩ := parsed_runs hparse {}
  have hfails : evaluate {} (.block inverseOctaves) ⟨0, 0, 0⟩ = .error (.call .infiniteOctaves) := by
    decide
  have hfailsMany : evaluateMany {} (.block inverseOctaves) [⟨0, 0, 0⟩, ⟨1, 0, 0⟩] =
      .error (.call .infiniteOctaves) := by
    decide
  refine ⟨source, hparse, (hpoint ⟨0, 0, 0⟩).resolve_left ?_, (hpoints _ (by simp)).resolve_left ?_⟩
  · rintro ⟨d, hd⟩
    cases hfails.symm.trans hd
  · rintro ⟨distances, hd, -⟩
    cases hfailsMany.symm.trans hd

end FieldLang
