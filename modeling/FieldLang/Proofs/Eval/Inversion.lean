/-
What a run has done.

* `evalExpr_negate_ok`, `evalExpr_step_ok`, `evalExpr_call_ok`, `evalExpr_conditional_ok`,
  `evalExpr_binary_ok`, `evalExpr_connective_ok` : when an expression has a value, for each node
  with something to evaluate;
* `evalArgs_cons_ok` : when a row of arguments has values;
* `execute_assign_ok` and its companions : when a statement runs to its end;
* `evalExpr_binary_error`, `execute_assign_error` and their companions : when one of them fails;
* `evalArgs_keeps`, `evalAll_keeps`, `executeAll_keeps` : what each member of a row keeps, the row
  keeps;
* `evalArgs_error_of_mem`, `evalAll_error_of_mem`, `executeAll_error_of_mem` : a row fails where one
  of its members does.

Design notes: every statement is an equivalence that names all that a step has done, so no
later proof unfolds the evaluator. They hold for every carrier.
-/
import FieldLang.Eval.Run
import FieldLang.Proofs.Except
import FieldLang.Proofs.Syntax.Induction

namespace FieldLang

variable {σ β : Type} [Carrier σ β] {angles : Angles} {env env' : Env σ β} {v : Value σ β}

/-! ### Expressions -/

-- Naming the evaluator here generates its equations once, ahead of the proofs that use them.
attribute [local simp] evalExpr evalArgs evalAll execute executeAll

@[simp] theorem evalExpr_number (value : Float) :
    evalExpr angles env (.number value) = .ok (.scalar (Carrier.const β value), env) := by
  rw [evalExpr]

theorem evalExpr_variable_ok {name : String} :
    evalExpr angles env (.variable name) = .ok (v, env') ↔ env.get? name = some v ∧ env' = env := by
  rw [evalExpr]
  cases env.get? name with
  | none => simp
  | some w => simp [eq_comm]

theorem evalExpr_negate_ok {operand : Expr} :
    evalExpr angles env (.negate operand) = .ok (v, env') ↔
      ∃ x, evalExpr angles env operand = .ok (.scalar x, env') ∧
        v = .scalar (Carrier.map β (fun x => -x) x) := by
  rw [evalExpr, bind_eq_ok]
  constructor
  · rintro ⟨⟨w, env₁⟩, h, hw⟩
    cases w with
    | scalar x =>
      simp only [pure_eq_ok, Prod.mk.injEq] at hw
      obtain ⟨rfl, rfl⟩ := hw
      exact ⟨x, h, rfl⟩
    | boolean b => cases hw
    | vec2 x y => cases hw
    | vec3 x y z => cases hw
  · rintro ⟨x, h, rfl⟩
    exact ⟨_, h, rfl⟩

omit [Carrier σ β] in
/-- A variable can be assigned if it is not read-only. -/
theorem assign_ok {name : String} {w : Value σ β} :
    assign env name w = .ok env' ↔ name ∉ readOnlyNames ∧ env' = env.set name w := by
  rw [assign]
  by_cases h : name ∈ readOnlyNames
  · simp [h]
  · simp [h, eq_comm]

omit [Carrier σ β] in
theorem assign_error {name : String} {w : Value σ β} {err : EvalError} :
    assign env name w = .error err ↔ name ∈ readOnlyNames ∧ err = .readOnly name := by
  rw [assign]
  by_cases h : name ∈ readOnlyNames
  · simp [h, eq_comm]
  · simp [h]

theorem evalExpr_step_ok {name : String} {op : StepOp} :
    evalExpr angles env (.step name op) = .ok (v, env') ↔
      ∃ x, env.get? name = some (.scalar x) ∧ name ∉ readOnlyNames ∧
        v = .scalar (Carrier.map β op.apply x) ∧ env' = env.set name v := by
  rw [evalExpr]
  cases h : env.get? name with
  | none => simp
  | some w =>
    cases w with
    | scalar x =>
      simp only [bind_eq_ok, pure_eq_ok, Prod.mk.injEq, assign_ok, Option.some.injEq,
        Value.scalar.injEq, exists_eq_left']
      constructor
      · rintro ⟨env₁, ⟨hn, rfl⟩, rfl, rfl⟩
        exact ⟨hn, rfl, rfl⟩
      · rintro ⟨hn, rfl, rfl⟩
        exact ⟨_, ⟨hn, rfl⟩, rfl, rfl⟩
    | boolean b => simp
    | vec2 x y => simp
    | vec3 x y z => simp

theorem evalExpr_call_ok {f : Builtin} {args : List Expr} :
    evalExpr angles env (.call f args) = .ok (v, env') ↔
      f.arity.accepts args.length = true ∧
        ∃ xs, evalArgs angles env f 1 args = .ok (xs, env') ∧
          applyBuiltin angles f xs = .ok v := by
  rw [evalExpr]
  by_cases h : f.arity.accepts args.length = true
  · simp only [h, if_true, bind_eq_ok, mapError_eq_ok, pure_eq_ok, Prod.mk.injEq, true_and]
    constructor
    · rintro ⟨⟨xs, env₁⟩, hxs, w, hw, rfl, rfl⟩
      exact ⟨xs, hxs, hw⟩
    · rintro ⟨xs, hxs, hw⟩
      exact ⟨(xs, env'), hxs, v, hw, rfl, rfl⟩
  · simp [h]

theorem evalExpr_conditional_ok {c t f : Expr} :
    evalExpr angles env (.conditional c t f) = .ok (v, env') ↔
      ∃ mask env₁, evalExpr angles env c = .ok (.boolean mask, env₁) ∧
        (((Carrier.verdict σ mask = .always ∨ Carrier.verdict σ mask = .vacuous) ∧
            evalExpr angles env₁ t = .ok (v, env')) ∨
          (Carrier.verdict σ mask = .never ∧ evalExpr angles env₁ f = .ok (v, env')) ∨
          (Carrier.verdict σ mask = .mixed ∧
            ∃ vT envT vF envF, evalExpr angles env₁ t = .ok (vT, envT) ∧
              evalExpr angles env₁ f = .ok (vF, envF) ∧
              vT.choose? mask vF = some v ∧ env' = Env.merge mask envT envF)) := by
  rw [evalExpr, bind_eq_ok]
  constructor
  · rintro ⟨⟨w, env₁⟩, h, hw⟩
    cases w with
    | boolean mask =>
      refine ⟨mask, env₁, h, ?_⟩
      -- the verdict on the condition says which branches run
      cases hv : Carrier.verdict σ mask with
      | always => exact .inl ⟨.inl rfl, by simpa [hv] using hw⟩
      | vacuous => exact .inl ⟨.inr rfl, by simpa [hv] using hw⟩
      | never => exact .inr (.inl ⟨rfl, by simpa [hv] using hw⟩)
      | mixed =>
        simp only [hv, bind_eq_ok] at hw
        obtain ⟨⟨vT, envT⟩, hT, ⟨vF, envF⟩, hF, hw⟩ := hw
        cases hc : vT.choose? mask vF with
        | none => simp [hc] at hw
        | some chosen =>
          simp only [hc, pure_eq_ok, Prod.mk.injEq] at hw
          obtain ⟨rfl, rfl⟩ := hw
          exact .inr (.inr ⟨rfl, vT, envT, vF, envF, hT, hF, hc, rfl⟩)
    | scalar x => cases hw
    | vec2 x y => cases hw
    | vec3 x y z => cases hw
  · rintro ⟨mask, env₁, h, hw⟩
    refine ⟨_, h, ?_⟩
    rcases hw with ⟨hv | hv, hw⟩ | ⟨hv, hw⟩ | ⟨hv, vT, envT, vF, envF, hT, hF, hc, rfl⟩
    · simpa [hv] using hw
    · simpa [hv] using hw
    · simpa [hv] using hw
    · simp [hv, hT, hF, hc, bind, Except.bind, pure, Except.pure]

/-- An operator that is no connective evaluates both operands. -/
theorem evalExpr_binary_ok {op : BinOp} {lhs rhs : Expr} (hop : op.connective? = none) :
    evalExpr angles env (.binary op lhs rhs) = .ok (v, env') ↔
      ∃ vL envL vR, evalExpr angles env lhs = .ok (vL, envL) ∧
        evalExpr angles envL rhs = .ok (vR, env') ∧ applyBinary op vL vR = .ok v := by
  rw [evalExpr]
  simp only [hop, bind_eq_ok, pure_eq_ok, Prod.mk.injEq]
  constructor
  · rintro ⟨⟨vL, envL⟩, hL, ⟨vR, envR⟩, hR, w, hw, rfl, rfl⟩
    exact ⟨vL, envL, vR, hL, hR, hw⟩
  · rintro ⟨vL, envL, vR, hL, hR, hw⟩
    exact ⟨(vL, envL), hL, (vR, env'), hR, v, hw, rfl, rfl⟩

/-- A connective evaluates its right operand where the left one leaves the result open. -/
theorem evalExpr_connective_ok {op : BinOp} {k : Connective} {lhs rhs : Expr}
    (hop : op.connective? = some k) :
    evalExpr angles env (.binary op lhs rhs) = .ok (v, env') ↔
      ∃ b envL, evalExpr angles env lhs = .ok (.boolean b, envL) ∧
        (((Carrier.verdict σ (k.runsRight σ b) = .never ∨
              Carrier.verdict σ (k.runsRight σ b) = .vacuous) ∧ v = .boolean b ∧ env' = envL) ∨
          (Carrier.verdict σ (k.runsRight σ b) = .always ∧
            ∃ vR, evalExpr angles envL rhs = .ok (vR, env') ∧ applyConnective k b vR = .ok v) ∨
          (Carrier.verdict σ (k.runsRight σ b) = .mixed ∧
            ∃ vR envR, evalExpr angles envL rhs = .ok (vR, envR) ∧
              applyConnective k b vR = .ok v ∧
              env' = Env.merge (k.runsRight σ b) envR envL)) := by
  rw [evalExpr]
  simp only [hop, bind_eq_ok]
  constructor
  · rintro ⟨⟨w, envL⟩, hL, hw⟩
    cases w with
    | boolean b =>
      refine ⟨b, envL, hL, ?_⟩
      -- the verdict says whether the right operand runs, and whether for all points
      cases hv : Carrier.verdict σ (k.runsRight σ b) with
      | never =>
        simp only [hv, pure_eq_ok, Prod.mk.injEq] at hw
        exact .inl ⟨.inl rfl, hw.1.symm, hw.2.symm⟩
      | vacuous =>
        simp only [hv, pure_eq_ok, Prod.mk.injEq] at hw
        exact .inl ⟨.inr rfl, hw.1.symm, hw.2.symm⟩
      | always =>
        simp only [hv, bind_eq_ok, pure_eq_ok, Prod.mk.injEq] at hw
        obtain ⟨⟨vR, envR⟩, hR, w, hw, rfl, rfl⟩ := hw
        exact .inr (.inl ⟨rfl, vR, hR, hw⟩)
      | mixed =>
        simp only [hv, bind_eq_ok, pure_eq_ok, Prod.mk.injEq] at hw
        obtain ⟨⟨vR, envR⟩, hR, w, hw, rfl, rfl⟩ := hw
        exact .inr (.inr ⟨rfl, vR, envR, hR, hw, rfl⟩)
    | scalar x => cases hw
    | vec2 x y => cases hw
    | vec3 x y z => cases hw
  · rintro ⟨b, envL, hL, hw⟩
    refine ⟨_, hL, ?_⟩
    rcases hw with ⟨hv | hv, rfl, rfl⟩ | ⟨hv, vR, hR, hw⟩ | ⟨hv, vR, envR, hR, hw, rfl⟩
    · simp [hv, pure_eq_ok]
    · simp [hv, pure_eq_ok]
    · simp only [hv, bind_eq_ok, pure_eq_ok]
      exact ⟨_, hR, _, hw, rfl⟩
    · simp only [hv, bind_eq_ok, pure_eq_ok]
      exact ⟨_, hR, _, hw, rfl⟩

/-- The right operand of a connective is a truth value. -/
theorem applyConnective_ok {k : Connective} {b : β} {w : Value σ β} :
    applyConnective k b w = .ok v ↔
      ∃ b', w = .boolean b' ∧ v = .boolean (Carrier.zipTruth σ k.apply b b') := by
  cases w with
  | boolean b' => simp [applyConnective, eq_comm]
  | scalar x => simp [applyConnective]
  | vec2 x y => simp [applyConnective]
  | vec3 x y z => simp [applyConnective]

@[simp] theorem evalExpr_misplaced (display : String) :
    evalExpr angles env (.misplaced display) = .error (.notExpression display) := by
  rw [evalExpr]

theorem evalArgs_nil_ok {f : Builtin} {place : Nat} {xs : List σ} :
    evalArgs angles env f place [] = .ok (xs, env') ↔ xs = [] ∧ env' = env := by
  rw [evalArgs]
  simp [eq_comm]

theorem evalArgs_cons_ok {f : Builtin} {place : Nat} {e : Expr} {es : List Expr} {xs : List σ} :
    evalArgs angles env f place (e :: es) = .ok (xs, env') ↔
      ∃ x env₁ rest, evalExpr angles env e = .ok (.scalar x, env₁) ∧
        evalArgs angles env₁ f (place + 1) es = .ok (rest, env') ∧ xs = x :: rest := by
  rw [evalArgs, bind_eq_ok]
  constructor
  · rintro ⟨⟨w, env₁⟩, h, hw⟩
    cases w with
    | scalar x =>
      simp only [bind_eq_ok, pure_eq_ok, Prod.mk.injEq] at hw
      obtain ⟨⟨rest, env₂⟩, hes, rfl, rfl⟩ := hw
      exact ⟨x, env₁, rest, h, hes, rfl⟩
    | boolean b => cases hw
    | vec2 x y => cases hw
    | vec3 x y z => cases hw
  · rintro ⟨x, env₁, rest, h, hes, rfl⟩
    refine ⟨_, h, ?_⟩
    simp only [bind_eq_ok, pure_eq_ok]
    exact ⟨_, hes, rfl⟩

/-! ### Expressions that have no value -/

section

variable {err : EvalError}

theorem evalExpr_variable_error {name : String} :
    evalExpr angles env (.variable name) = .error err ↔
      env.get? name = none ∧ err = .unbound name := by
  rw [evalExpr]
  cases env.get? name with
  | none => simp [eq_comm]
  | some w => simp

theorem evalExpr_negate_error {operand : Expr} :
    evalExpr angles env (.negate operand) = .error err ↔
      evalExpr angles env operand = .error err ∨
        ∃ w env₁, evalExpr angles env operand = .ok (w, env₁) ∧ w.kind ≠ .scalar ∧
          err = .negatedKind w.kind := by
  rw [evalExpr, bind_eq_error]
  refine or_congr_right ?_
  constructor
  · rintro ⟨⟨w, env₁⟩, h, hw⟩
    refine ⟨w, env₁, h, ?_⟩
    cases w with
    | scalar x => cases hw
    | boolean b => exact ⟨by simp [Value.kind], (Except.error.inj hw).symm⟩
    | vec2 x y => exact ⟨by simp [Value.kind], (Except.error.inj hw).symm⟩
    | vec3 x y z => exact ⟨by simp [Value.kind], (Except.error.inj hw).symm⟩
  · rintro ⟨w, env₁, h, hk, rfl⟩
    refine ⟨_, h, ?_⟩
    cases w with
    | scalar x => exact absurd rfl hk
    | boolean b => rfl
    | vec2 x y => rfl
    | vec3 x y z => rfl

theorem evalExpr_step_error {name : String} {op : StepOp} :
    evalExpr angles env (.step name op) = .error err ↔
      (env.get? name = none ∧ err = .unbound name) ∨
        (∃ w, env.get? name = some w ∧ w.kind ≠ .scalar ∧ err = .steppedKind op name w.kind) ∨
        ∃ x, env.get? name = some (.scalar x) ∧ name ∈ readOnlyNames ∧ err = .readOnly name := by
  rw [evalExpr]
  cases h : env.get? name with
  | none => simp [eq_comm]
  | some w =>
    cases w with
    | scalar x =>
      by_cases hn : name ∈ readOnlyNames
      · simp [assign, hn, Value.kind, bind, Except.bind, eq_comm]
      · simp [assign, hn, Value.kind, bind, Except.bind, pure, Except.pure]
    | boolean b => simp [Value.kind, eq_comm]
    | vec2 x y => simp [Value.kind, eq_comm]
    | vec3 x y z => simp [Value.kind, eq_comm]

theorem evalExpr_call_error {f : Builtin} {args : List Expr} :
    evalExpr angles env (.call f args) = .error err ↔
      (f.arity.accepts args.length = false ∧ err = .arity f args.length) ∨
        (f.arity.accepts args.length = true ∧
          (evalArgs angles env f 1 args = .error err ∨
            ∃ xs env₁ e, evalArgs angles env f 1 args = .ok (xs, env₁) ∧
              applyBuiltin (β := β) angles f xs = .error e ∧
              err = .call e)) := by
  rw [evalExpr]
  cases h : f.arity.accepts args.length with
  | false => simp [eq_comm]
  | true =>
    simp only [if_true, bind_eq_error, pure, Except.pure, reduceCtorEq, and_false, exists_false,
      or_false, false_and, false_or, true_and, Bool.true_eq_false]
    refine or_congr_right ?_
    constructor
    · rintro ⟨⟨xs, env₁⟩, hxs, he⟩
      cases ha : applyBuiltin (β := β) angles f xs with
      | ok w => simp [ha, mapError_ok] at he
      | error e => exact ⟨xs, env₁, e, hxs, ha, by simpa [ha, mapError_error, eq_comm] using he⟩
    · rintro ⟨xs, env₁, e, hxs, ha, rfl⟩
      exact ⟨(xs, env₁), hxs, by simp [ha, mapError_error]⟩

theorem evalExpr_conditional_error {c t f : Expr} :
    evalExpr angles env (.conditional c t f) = .error err ↔
      evalExpr angles env c = .error err ∨
        ∃ w env₁, evalExpr angles env c = .ok (w, env₁) ∧
          ((w.kind ≠ .boolean ∧ err = .conditionKind w.kind) ∨
            ∃ mask, w = .boolean mask ∧
              (((Carrier.verdict σ mask = .always ∨ Carrier.verdict σ mask = .vacuous) ∧
                  evalExpr angles env₁ t = .error err) ∨
                (Carrier.verdict σ mask = .never ∧ evalExpr angles env₁ f = .error err) ∨
                (Carrier.verdict σ mask = .mixed ∧
                  (evalExpr angles env₁ t = .error err ∨
                    ∃ vT envT, evalExpr angles env₁ t = .ok (vT, envT) ∧
                      (evalExpr angles env₁ f = .error err ∨
                        ∃ vF envF, evalExpr angles env₁ f = .ok (vF, envF) ∧
                          vT.choose? mask vF = none ∧
                          err = .branchKinds vT.kind vF.kind))))) := by
  rw [evalExpr, bind_eq_error]
  refine or_congr_right ?_
  constructor
  · rintro ⟨⟨w, env₁⟩, h, hw⟩
    refine ⟨w, env₁, h, ?_⟩
    cases w with
    | boolean mask =>
      refine .inr ⟨mask, rfl, ?_⟩
      -- the verdict on the condition says which branches may fail
      cases hv : Carrier.verdict σ mask with
      | always => exact .inl ⟨.inl rfl, by simpa [hv] using hw⟩
      | vacuous => exact .inl ⟨.inr rfl, by simpa [hv] using hw⟩
      | never => exact .inr (.inl ⟨rfl, by simpa [hv] using hw⟩)
      | mixed =>
        refine .inr (.inr ⟨rfl, ?_⟩)
        simp only [hv, bind_eq_error] at hw
        refine hw.imp_right ?_
        rintro ⟨⟨vT, envT⟩, hT, hF | ⟨⟨vF, envF⟩, hF, hw⟩⟩
        · exact ⟨vT, envT, hT, .inl hF⟩
        · refine ⟨vT, envT, hT, .inr ⟨vF, envF, hF, ?_⟩⟩
          cases hc : vT.choose? mask vF with
          | none => exact ⟨rfl, by simpa [hc, eq_comm] using hw⟩
          | some chosen => simp [hc, pure, Except.pure] at hw
    | scalar x => exact .inl ⟨by simp [Value.kind], (Except.error.inj hw).symm⟩
    | vec2 x y => exact .inl ⟨by simp [Value.kind], (Except.error.inj hw).symm⟩
    | vec3 x y z => exact .inl ⟨by simp [Value.kind], (Except.error.inj hw).symm⟩
  · rintro ⟨w, env₁, h, ⟨hk, rfl⟩ | ⟨mask, rfl, hw⟩⟩
    · refine ⟨_, h, ?_⟩
      cases w with
      | boolean mask => exact absurd rfl hk
      | scalar x => rfl
      | vec2 x y => rfl
      | vec3 x y z => rfl
    · refine ⟨_, h, ?_⟩
      rcases hw with ⟨hv | hv, hw⟩ | ⟨hv, hw⟩ | ⟨hv, hw⟩
      · simpa [hv] using hw
      · simpa [hv] using hw
      · simpa [hv] using hw
      · simp only [hv, bind_eq_error]
        refine hw.imp_right ?_
        rintro ⟨vT, envT, hT, hF | ⟨vF, envF, hF, hc, rfl⟩⟩
        · exact ⟨(vT, envT), hT, .inl hF⟩
        · exact ⟨(vT, envT), hT, .inr ⟨(vF, envF), hF, by simp [hc]⟩⟩

theorem evalExpr_binary_error {op : BinOp} {lhs rhs : Expr} (hop : op.connective? = none) :
    evalExpr angles env (.binary op lhs rhs) = .error err ↔
      evalExpr angles env lhs = .error err ∨
        ∃ vL envL, evalExpr angles env lhs = .ok (vL, envL) ∧
          (evalExpr angles envL rhs = .error err ∨
            ∃ vR envR, evalExpr angles envL rhs = .ok (vR, envR) ∧
              applyBinary op vL vR = .error err) := by
  rw [evalExpr]
  simp only [hop, bind_eq_error, pure, Except.pure, reduceCtorEq, and_false, exists_false,
    or_false, Prod.exists]

theorem evalExpr_connective_error {op : BinOp} {k : Connective} {lhs rhs : Expr}
    (hop : op.connective? = some k) :
    evalExpr angles env (.binary op lhs rhs) = .error err ↔
      evalExpr angles env lhs = .error err ∨
        ∃ w envL, evalExpr angles env lhs = .ok (w, envL) ∧
          ((w.kind ≠ .boolean ∧ err = .operandKinds op w.kind none) ∨
            ∃ b, w = .boolean b ∧
              (Carrier.verdict σ (k.runsRight σ b) = .always ∨
                Carrier.verdict σ (k.runsRight σ b) = .mixed) ∧
              (evalExpr angles envL rhs = .error err ∨
                ∃ vR envR, evalExpr angles envL rhs = .ok (vR, envR) ∧
                  applyConnective k b vR = .error err)) := by
  rw [evalExpr, bind_eq_error]
  refine or_congr_right ?_
  simp only [hop]
  constructor
  · rintro ⟨⟨w, envL⟩, h, hw⟩
    refine ⟨w, envL, h, ?_⟩
    cases w with
    | boolean b =>
      refine .inr ⟨b, rfl, ?_⟩
      -- an operand that does not run does not fail
      cases hv : Carrier.verdict σ (k.runsRight σ b) with
      | never => simp [hv, pure, Except.pure] at hw
      | vacuous => simp [hv, pure, Except.pure] at hw
      | always =>
        simp only [hv, bind_eq_error, pure, Except.pure, reduceCtorEq, and_false, exists_false,
          or_false, Prod.exists] at hw
        exact ⟨.inl rfl, hw⟩
      | mixed =>
        simp only [hv, bind_eq_error, pure, Except.pure, reduceCtorEq, and_false, exists_false,
          or_false, Prod.exists] at hw
        exact ⟨.inr rfl, hw⟩
    | scalar x => exact .inl ⟨by simp [Value.kind], (Except.error.inj hw).symm⟩
    | vec2 x y => exact .inl ⟨by simp [Value.kind], (Except.error.inj hw).symm⟩
    | vec3 x y z => exact .inl ⟨by simp [Value.kind], (Except.error.inj hw).symm⟩
  · rintro ⟨w, envL, h, ⟨hk, rfl⟩ | ⟨b, rfl, hv, hw⟩⟩
    · refine ⟨_, h, ?_⟩
      cases w with
      | boolean mask => exact absurd rfl hk
      | scalar x => rfl
      | vec2 x y => rfl
      | vec3 x y z => rfl
    · refine ⟨_, h, ?_⟩
      rcases hv with hv | hv
      · simpa only [hv, bind_eq_error, pure, Except.pure, reduceCtorEq, and_false, exists_false,
          or_false, Prod.exists] using hw
      · simpa only [hv, bind_eq_error, pure, Except.pure, reduceCtorEq, and_false, exists_false,
          or_false, Prod.exists] using hw

theorem evalArgs_cons_error {f : Builtin} {place : Nat} {e : Expr} {es : List Expr} :
    evalArgs angles env f place (e :: es) = .error err ↔
      evalExpr angles env e = .error err ∨
        ∃ w env₁, evalExpr angles env e = .ok (w, env₁) ∧
          ((w.kind ≠ .scalar ∧ err = .argumentKind f place w.kind) ∨
            (w.kind = .scalar ∧ evalArgs angles env₁ f (place + 1) es = .error err)) := by
  rw [evalArgs, bind_eq_error]
  refine or_congr_right ?_
  constructor
  · rintro ⟨⟨w, env₁⟩, h, hw⟩
    refine ⟨w, env₁, h, ?_⟩
    cases w with
    | scalar x =>
      simp only [bind_eq_error, pure, Except.pure, reduceCtorEq, and_false, exists_false,
        or_false] at hw
      exact .inr ⟨rfl, hw⟩
    | boolean b => exact .inl ⟨by simp [Value.kind], (Except.error.inj hw).symm⟩
    | vec2 x y => exact .inl ⟨by simp [Value.kind], (Except.error.inj hw).symm⟩
    | vec3 x y z => exact .inl ⟨by simp [Value.kind], (Except.error.inj hw).symm⟩
  · rintro ⟨w, env₁, h, hw⟩
    refine ⟨_, h, ?_⟩
    cases w with
    | scalar x =>
      rcases hw with ⟨hk, -⟩ | ⟨-, hes⟩
      · exact absurd rfl hk
      · simp [hes, bind, Except.bind]
    | boolean b =>
      rcases hw with ⟨-, rfl⟩ | ⟨hk, -⟩
      · rfl
      · cases hk
    | vec2 x y =>
      rcases hw with ⟨-, rfl⟩ | ⟨hk, -⟩
      · rfl
      · cases hk
    | vec3 x y z =>
      rcases hw with ⟨-, rfl⟩ | ⟨hk, -⟩
      · rfl
      · cases hk

end

/-! ### Builtin functions -/

theorem applyBuiltinTo_ok {n : Nat} {f : Builtin} {xs : Vector σ n} :
    applyBuiltinTo angles f xs = .ok v ↔
      ∃ m, f.meaning angles n = .ok m ∧ checkOctaveArgument (β := β) f xs = .ok () ∧
        m.apply xs = .ok v := by
  simp only [applyBuiltinTo, bind_eq_ok]
  constructor
  · rintro ⟨m, hm, ⟨⟩, ho, hv⟩
    exact ⟨m, hm, ho, hv⟩
  · rintro ⟨m, hm, ho, hv⟩
    exact ⟨m, hm, (), ho, hv⟩

/-- Arguments are handed over with their number. -/
theorem applyBuiltin_eq {n : Nat} {f : Builtin} {xs : List σ} (h : xs.toArray.size = n) :
    applyBuiltin angles f xs =
      (applyBuiltinTo angles f (.mk xs.toArray h) : Except CallError (Value σ β)) := by
  subst h
  rfl

/-! ### Statements -/

theorem evalAll_nil_ok {vs : List (Value σ β)} :
    evalAll angles env [] = .ok (vs, env') ↔ vs = [] ∧ env' = env := by
  rw [evalAll]
  simp [eq_comm]

theorem evalAll_cons_ok {e : Expr} {es : List Expr} {vs : List (Value σ β)} :
    evalAll angles env (e :: es) = .ok (vs, env') ↔
      ∃ w env₁ rest, evalExpr angles env e = .ok (w, env₁) ∧
        evalAll angles env₁ es = .ok (rest, env') ∧ vs = w :: rest := by
  rw [evalAll]
  simp only [bind_eq_ok, pure_eq_ok, Prod.mk.injEq]
  constructor
  · rintro ⟨⟨w, env₁⟩, h, ⟨rest, env₂⟩, hes, rfl, rfl⟩
    exact ⟨w, env₁, rest, h, hes, rfl⟩
  · rintro ⟨w, env₁, rest, h, hes, rfl⟩
    exact ⟨(w, env₁), h, (rest, env'), hes, rfl, rfl⟩

omit [Carrier σ β] in
@[simp] theorem assignAll_nil : assignAll env [] = .ok env := rfl

omit [Carrier σ β] in
theorem assignAll_cons_ok {name : String} {w : Value σ β} {rest : List (String × Value σ β)} :
    assignAll env ((name, w) :: rest) = .ok env' ↔
      name ∉ readOnlyNames ∧ assignAll (env.set name w) rest = .ok env' := by
  simp only [assignAll, bind_eq_ok, assign_ok]
  constructor
  · rintro ⟨env₁, ⟨hn, rfl⟩, h⟩
    exact ⟨hn, h⟩
  · rintro ⟨hn, h⟩
    exact ⟨_, ⟨hn, rfl⟩, h⟩

variable {s s' : State σ β}

@[simp] theorem execute_block (statements : List Stmt) :
    execute angles s (.block statements) = executeAll angles s statements := by
  rw [execute]

@[simp] theorem execute_empty : execute angles s .empty = .ok s := by
  rw [execute]

@[simp] theorem execute_misplaced (display : String) :
    execute angles s (.misplaced display) = .error (.notStatement display) := by
  rw [execute]

theorem execute_result_ok {value : Expr} :
    execute angles s (.result value) = .ok s' ↔
      ∃ w env₁, evalExpr angles s.env value = .ok (w, env₁) ∧ s' = ⟨env₁, some w⟩ := by
  rw [execute]
  simp only [bind_eq_ok, pure_eq_ok]
  constructor
  · rintro ⟨⟨w, env₁⟩, h, rfl⟩
    exact ⟨w, env₁, h, rfl⟩
  · rintro ⟨w, env₁, h, rfl⟩
    exact ⟨(w, env₁), h, rfl⟩

theorem execute_assign_ok {name : String} {value : Expr} :
    execute angles s (.assign name value) = .ok s' ↔
      ∃ w env₁, evalExpr angles s.env value = .ok (w, env₁) ∧ name ∉ readOnlyNames ∧
        s' = ⟨env₁.set name w, some w⟩ := by
  rw [execute]
  simp only [bind_eq_ok, pure_eq_ok, assign_ok]
  constructor
  · rintro ⟨⟨w, env₁⟩, h, env₂, ⟨hn, rfl⟩, rfl⟩
    exact ⟨w, env₁, h, hn, rfl⟩
  · rintro ⟨w, env₁, h, hn, rfl⟩
    exact ⟨(w, env₁), h, _, ⟨hn, rfl⟩, rfl⟩

theorem execute_unpack_ok {names : List String} {value : Expr} :
    execute angles s (.unpack names value) = .ok s' ↔
      ∃ w env₁ axes env₂, evalExpr angles s.env value = .ok (w, env₁) ∧ w.axes? = some axes ∧
        axes.length = names.length ∧
        assignAll env₁ (names.zip (axes.map .scalar)) = .ok env₂ ∧ s' = ⟨env₂, some w⟩ := by
  rw [execute]
  simp only [bind_eq_ok]
  constructor
  · rintro ⟨⟨w, env₁⟩, h, hw⟩
    cases ha : w.axes? with
    | none => simp [ha] at hw
    | some axes =>
      by_cases hl : axes.length = names.length
      · simp only [ha, hl, if_true, bind_eq_ok, pure_eq_ok] at hw
        obtain ⟨env₂, hs, rfl⟩ := hw
        exact ⟨w, env₁, axes, env₂, h, ha, hl, hs, rfl⟩
      · simp [ha, hl] at hw
  · rintro ⟨w, env₁, axes, env₂, h, ha, hl, hs, rfl⟩
    refine ⟨(w, env₁), h, ?_⟩
    simp only [ha, hl, if_true, bind_eq_ok, pure_eq_ok]
    exact ⟨env₂, hs, rfl⟩

theorem execute_assignEach_ok {names : List String} {values : List Expr} :
    execute angles s (.assignEach names values) = .ok s' ↔
      ∃ vs env₁ env₂, evalAll angles s.env values = .ok (vs, env₁) ∧
        assignAll env₁ (names.zip vs) = .ok env₂ ∧ s' = ⟨env₂, vs.getLast?.or s.last⟩ := by
  rw [execute]
  simp only [bind_eq_ok, pure_eq_ok]
  constructor
  · rintro ⟨⟨vs, env₁⟩, h, env₂, hs, rfl⟩
    exact ⟨vs, env₁, env₂, h, hs, rfl⟩
  · rintro ⟨vs, env₁, env₂, h, hs, rfl⟩
    exact ⟨(vs, env₁), h, env₂, hs, rfl⟩

section

variable {err : EvalError}

theorem evalAll_cons_error {e : Expr} {es : List Expr} :
    evalAll angles env (e :: es) = .error err ↔
      evalExpr angles env e = .error err ∨
        ∃ w env₁, evalExpr angles env e = .ok (w, env₁) ∧
          evalAll angles env₁ es = .error err := by
  rw [evalAll]
  simp only [bind_eq_error, pure, Except.pure, reduceCtorEq, and_false, exists_false, or_false,
    Prod.exists]

theorem execute_result_error {value : Expr} :
    execute angles s (.result value) = .error err ↔
      evalExpr angles s.env value = .error err := by
  rw [execute]
  simp only [bind_eq_error, pure, Except.pure, reduceCtorEq, and_false, exists_false, or_false]

theorem execute_assign_error {name : String} {value : Expr} :
    execute angles s (.assign name value) = .error err ↔
      evalExpr angles s.env value = .error err ∨
        ∃ w env₁, evalExpr angles s.env value = .ok (w, env₁) ∧
          assign env₁ name w = .error err := by
  rw [execute]
  simp only [bind_eq_error, pure, Except.pure, reduceCtorEq, and_false, exists_false, or_false,
    Prod.exists]

theorem execute_unpack_error {names : List String} {value : Expr} :
    execute angles s (.unpack names value) = .error err ↔
      evalExpr angles s.env value = .error err ∨
        ∃ w env₁, evalExpr angles s.env value = .ok (w, env₁) ∧
          ((w.axes?.map List.length ≠ some names.length ∧ err = .unpackKind w.kind names) ∨
            ∃ axes, w.axes? = some axes ∧ axes.length = names.length ∧
              assignAll env₁ (names.zip (axes.map .scalar)) = .error err) := by
  rw [execute]
  simp only [bind_eq_error, Prod.exists]
  refine or_congr_right (exists_congr fun w => exists_congr fun env₁ => and_congr_right fun _ => ?_)
  cases ha : w.axes? with
  | none => simp [eq_comm]
  | some axes =>
    by_cases hl : axes.length = names.length
    · simp [hl, bind_eq_error, pure, Except.pure]
    · simp [hl, eq_comm]

theorem execute_assignEach_error {names : List String} {values : List Expr} :
    execute angles s (.assignEach names values) = .error err ↔
      evalAll angles s.env values = .error err ∨
        ∃ vs env₁, evalAll angles s.env values = .ok (vs, env₁) ∧
          assignAll env₁ (names.zip vs) = .error err := by
  rw [execute]
  simp only [bind_eq_error, pure, Except.pure, reduceCtorEq, and_false, exists_false, or_false,
    Prod.exists]

end

@[simp] theorem executeAll_nil : executeAll angles s [] = .ok s := by
  rw [executeAll]

theorem executeAll_cons (first : Stmt) (rest : List Stmt) :
    executeAll angles s (first :: rest) =
      execute angles s first >>= fun s₁ => executeAll angles s₁ rest := by
  rw [executeAll]

/-- A row of statements runs part by part. -/
theorem executeAll_append (front back : List Stmt) :
    executeAll angles s (front ++ back) =
      executeAll angles s front >>= fun s₁ => executeAll angles s₁ back := by
  induction front generalizing s with
  | nil => simp [bind, Except.bind]
  | cons first rest ih =>
    rw [List.cons_append, executeAll_cons, executeAll_cons]
    cases execute angles s first with
    | error e => rfl
    | ok s₁ => exact ih

theorem executeAll_singleton (statement : Stmt) :
    executeAll angles s [statement] = execute angles s statement := by
  rw [executeAll_cons]
  cases execute angles s statement with
  | error e => rfl
  | ok s₁ =>
    show executeAll angles s₁ [] = .ok s₁
    rw [executeAll_nil]

private theorem executeAll_flattenAll {statements : List Stmt}
    (h : ∀ t ∈ statements, ∀ s : State σ β,
      executeAll angles s t.flatten = execute angles s t) :
    executeAll angles s (flattenAll statements) = executeAll angles s statements := by
  induction statements generalizing s with
  | nil => rw [flattenAll]
  | cons first rest ih =>
    rw [flattenAll, executeAll_append, executeAll_cons, h first (by simp)]
    cases execute angles s first with
    | error e => rfl
    | ok s₁ => exact ih fun t ht => h t (by simp [ht])

/-- A statement runs as the row of its simple statements. -/
theorem executeAll_flatten (statement : Stmt) :
    executeAll angles s statement.flatten = execute angles s statement := by
  induction statement using Stmt.induction generalizing s with
  | block statements ih =>
    rw [Stmt.flatten, execute_block]
    exact executeAll_flattenAll fun t ht s => ih t ht
  | assign name value => exact executeAll_singleton _
  | unpack names value => exact executeAll_singleton _
  | assignEach names values => exact executeAll_singleton _
  | result value => exact executeAll_singleton _
  | empty => exact executeAll_singleton _
  | misplaced display => exact executeAll_singleton _

/-! ### What a row keeps -/

section

variable {I : Env σ β → Prop}

/-- What each argument in a row keeps, the row keeps. -/
theorem evalArgs_keeps {f : Builtin} {place : Nat} {args : List Expr} {xs : List σ}
    (hargs : ∀ e ∈ args, ∀ (env env' : Env σ β) (v : Value σ β), I env →
      evalExpr angles env e = .ok (v, env') → I env')
    (hI : I env) (h : evalArgs angles env f place args = .ok (xs, env')) : I env' := by
  induction args generalizing env place xs with
  | nil =>
    obtain ⟨-, rfl⟩ := evalArgs_nil_ok.mp h
    exact hI
  | cons e es ih =>
    obtain ⟨x, env₁, rest, he, hes, -⟩ := evalArgs_cons_ok.mp h
    exact ih (fun e' h' => hargs e' (by simp [h'])) (hargs e (by simp) _ _ _ hI he) hes

theorem evalAll_keeps {es : List Expr} {vs : List (Value σ β)}
    (hes : ∀ e ∈ es, ∀ (env env' : Env σ β) (v : Value σ β), I env →
      evalExpr angles env e = .ok (v, env') → I env')
    (hI : I env) (h : evalAll angles env es = .ok (vs, env')) : I env' := by
  induction es generalizing env vs with
  | nil =>
    obtain ⟨-, rfl⟩ := evalAll_nil_ok.mp h
    exact hI
  | cons e rest ih =>
    obtain ⟨w, env₁, ws, he, hrest, -⟩ := evalAll_cons_ok.mp h
    exact ih (fun e' h' => hes e' (by simp [h'])) (hes e (by simp) _ _ _ hI he) hrest

end

theorem executeAll_keeps {J : State σ β → Prop} {statements : List Stmt}
    (hall : ∀ t ∈ statements, ∀ s s' : State σ β, J s → execute angles s t = .ok s' → J s')
    (hJ : J s) (h : executeAll angles s statements = .ok s') : J s' := by
  induction statements generalizing s with
  | nil =>
    rw [executeAll_nil, Except.ok.injEq] at h
    exact h ▸ hJ
  | cons first rest ih =>
    rw [executeAll_cons, bind_eq_ok] at h
    obtain ⟨s₁, hf, hr⟩ := h
    exact ih (fun t ht => hall t (by simp [ht])) (hall first (by simp) _ _ hJ hf) hr

/-! ### Where a row fails -/

section

variable {err : EvalError}

/-- A row of arguments fails where one of them does, or at one that is not a number. -/
theorem evalArgs_error_of_mem {f : Builtin} {place : Nat} {args : List Expr}
    (h : evalArgs angles env f place args = .error err) :
    (∃ e ∈ args, ∃ env₁ : Env σ β, evalExpr angles env₁ e = .error err) ∨
      ∃ place kind, err = .argumentKind f place kind := by
  induction args generalizing env place with
  | nil =>
    rw [evalArgs] at h
    cases h
  | cons e es ih =>
    rcases evalArgs_cons_error.mp h with he | ⟨w, env₁, -, ⟨-, rfl⟩ | ⟨-, hes⟩⟩
    · exact .inl ⟨e, List.mem_cons_self, env, he⟩
    · exact .inr ⟨_, _, rfl⟩
    · refine (ih hes).imp_left ?_
      rintro ⟨e', he', env', h'⟩
      exact ⟨e', List.mem_cons_of_mem e he', env', h'⟩

theorem evalAll_error_of_mem {es : List Expr} (h : evalAll angles env es = .error err) :
    ∃ e ∈ es, ∃ env₁ : Env σ β, evalExpr angles env₁ e = .error err := by
  induction es generalizing env with
  | nil =>
    rw [evalAll] at h
    cases h
  | cons e es ih =>
    rcases evalAll_cons_error.mp h with he | ⟨w, env₁, -, hes⟩
    · exact ⟨e, List.mem_cons_self, env, he⟩
    · obtain ⟨e', he', h'⟩ := ih hes
      exact ⟨e', List.mem_cons_of_mem e he', h'⟩

omit [Carrier σ β] in
theorem assignAll_error_of_mem {bindings : List (String × Value σ β)}
    (h : assignAll env bindings = .error err) :
    ∃ b ∈ bindings, b.1 ∈ readOnlyNames ∧ err = .readOnly b.1 := by
  induction bindings generalizing env with
  | nil => cases h
  | cons binding rest ih =>
    rcases bind_eq_error.mp h with ha | ⟨env₁, -, hrest⟩
    · exact ⟨binding, List.mem_cons_self, assign_error.mp ha⟩
    · obtain ⟨b, hmem, h'⟩ := ih hrest
      exact ⟨b, List.mem_cons_of_mem binding hmem, h'⟩

theorem executeAll_error_of_mem {statements : List Stmt} {s : State σ β}
    (h : executeAll angles s statements = .error err) :
    ∃ t ∈ statements, ∃ s₁ : State σ β, execute angles s₁ t = .error err := by
  induction statements generalizing s with
  | nil => simp at h
  | cons first rest ih =>
    rw [executeAll_cons] at h
    rcases bind_eq_error.mp h with hfirst | ⟨s₁, -, hrest⟩
    · exact ⟨first, List.mem_cons_self, s, hfirst⟩
    · obtain ⟨t, ht, h'⟩ := ih hrest
      exact ⟨t, List.mem_cons_of_mem first ht, h'⟩

end

/-! ### Results and traces -/

omit [Carrier σ β] in
/-- A run yields its last value, which must be a number. -/
theorem State.result_ok {x : σ} : s.result = .ok x ↔ s.last = some (.scalar x) := by
  rw [State.result]
  cases s.last with
  | none => simp
  | some w =>
    cases w with
    | scalar y => simp
    | boolean b => simp
    | vec2 x y => simp
    | vec3 x y z => simp

end FieldLang
