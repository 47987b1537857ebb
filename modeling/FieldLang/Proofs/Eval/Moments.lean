/-
What the environment of a run is, moment by moment.

* `Evaluates`, `Merges`, `Passes` : the expressions that the evaluation of an expression evaluates,
  the environments that it merges, and all environments that it passes through;
* `Runs`, `Starts`, `Binds`, `Moment`, `MergesIn` : the same for a run of a statement;
* `evalExpr_keeps` : what steps and merges keep, the evaluation of an expression keeps;
* `Env.Invariant`, `Moment.keeps` : what assignments and merges keep holds at every moment;
* `MergesIn.found` : a merge finds every variable in both of its environments.

Design notes: a moment belongs to a run whether or not the run succeeds, so that a relation says
only what was evaluated before it. All hold for every carrier.
-/
import FieldLang.Proofs.Eval.AtPoint
import FieldLang.Proofs.Syntax.Nodes

namespace FieldLang

variable {σ β : Type}

/-! ### Looking up -/

namespace Env

theorem get?_map_kind (env : Env σ β) (name : String) :
    (env.get? name).map Value.kind = env.shape.lookup name := by
  induction env with
  | nil => rfl
  | cons entry rest ih =>
    obtain ⟨m, v⟩ := entry
    by_cases h : m = name
    · simp [get?, shape, h]
    · have hne : (name == m) = false := by simpa using Ne.symm h
      simpa [get?, shape, h, List.lookup_cons, hne] using ih

/-- What is bound in an environment is bound in one of the same shape, to a value of its kind. -/
theorem exists_get?_of_shape_eq {σ' β' : Type} {env : Env σ β} {env' : Env σ' β'}
    (hs : env'.shape = env.shape) {name : String} {v : Value σ β} (h : env.get? name = some v) :
    ∃ v', env'.get? name = some v' ∧ v'.kind = v.kind := by
  have hkind := get?_map_kind env' name
  rw [hs, ← get?_map_kind env name, h] at hkind
  simpa using hkind

/-- A variable is bound to a value with a property. -/
def Holds (env : Env σ β) (name : String) (P : Value σ β → Prop) : Prop :=
  ∃ v, env.get? name = some v ∧ P v

theorem Holds.set_of_ne {env : Env σ β} {name other : String} {P : Value σ β → Prop}
    (h : env.Holds name P) (hne : name ≠ other) (v : Value σ β) : (env.set other v).Holds name P := by
  obtain ⟨w, hw, hP⟩ := h
  exact ⟨w, by rw [get?_set_of_ne env v hne, hw], hP⟩

theorem Holds.set_any {env : Env σ β} {name : String} (h : env.Holds name fun _ => True)
    (other : String) (v : Value σ β) : (env.set other v).Holds name fun _ => True := by
  by_cases hne : name = other
  · subst hne
    exact ⟨v, get?_set_self env name v, trivial⟩
  · exact h.set_of_ne hne v

end Env

variable [Carrier σ β] {angles : Angles} {env env' : Env σ β} {v : Value σ β}

theorem Env.get?_merge (mask : β) (taken other : Env σ β) (name : String) :
    (merge mask taken other).get? name =
      (taken.get? name).map fun v =>
        match other.get? name with
        | none => v
        | some v' => (v.choose? mask v').getD v := by
  induction taken with
  | nil => rfl
  | cons entry rest ih =>
    obtain ⟨m, w⟩ := entry
    by_cases h : m = name
    · subst h
      cases ho : other.get? m with
      | none => simp [merge, get?, ho]
      | some w' => simp [merge, get?, ho]
    · cases ho : other.get? m with
      | none => simpa [merge, get?, ho, h] using ih
      | some w' => simpa [merge, get?, ho, h] using ih

/-! ### What the evaluation of an expression keeps -/

section

variable {I : Env σ β → Prop}

/-- A step that is one of the nodes keeps a property of environments. -/
def StepsKeep (I : Env σ β → Prop) (nodes : List Expr) : Prop :=
  ∀ (name : String) (op : StepOp) (env : Env σ β) (x : σ), .step name op ∈ nodes →
    name ∉ readOnlyNames → env.get? name = some (.scalar x) → I env →
    I (env.set name (.scalar (Carrier.map β op.apply x)))

theorem StepsKeep.mono {nodes nodes' : List Expr} (h : StepsKeep I nodes) (hs : nodes' ⊆ nodes) :
    StepsKeep I nodes' :=
  fun name op env x hmem => h name op env x (hs hmem)

/-- What the steps in an expression and the merges of environments of one shape keep, the
evaluation of the expression keeps. -/
theorem evalExpr_keeps
    (hmerge : ∀ (mask : β) (taken other : Env σ β), Carrier.verdict σ mask = .mixed →
      taken.shape = other.shape → I taken → I other → I (Env.merge mask taken other))
    {e : Expr} (hsteps : StepsKeep I e.nodes)
    (hI : I env) (h : evalExpr angles env e = .ok (v, env')) : I env' := by
  induction e using Expr.induction generalizing env env' v with
  | number value =>
    simp only [evalExpr_number, Except.ok.injEq, Prod.mk.injEq] at h
    exact h.2 ▸ hI
  | name name =>
    rw [(evalExpr_variable_ok.mp h).2]
    exact hI
  | binary op lhs rhs ihL ihR =>
    have hsL : StepsKeep I lhs.nodes := hsteps.mono fun _ hm => by simp [Expr.nodes, hm]
    have hsR : StepsKeep I rhs.nodes := hsteps.mono fun _ hm => by simp [Expr.nodes, hm]
    cases hop : op.connective? with
    | none =>
      obtain ⟨vL, envL, vR, hL, hR, -⟩ := (evalExpr_binary_ok hop).mp h
      exact ihR hsR (ihL hsL hI hL) hR
    | some k =>
      obtain ⟨b, envL, hL, hw⟩ := (evalExpr_connective_ok hop).mp h
      rcases hw with ⟨-, -, rfl⟩ | ⟨-, vR, hR, -⟩ | ⟨hv, vR, envR, hR, -, rfl⟩
      · exact ihL hsL hI hL
      · exact ihR hsR (ihL hsL hI hL) hR
      · exact hmerge _ _ _ hv (evalExpr_shape hR) (ihR hsR (ihL hsL hI hL) hR) (ihL hsL hI hL)
  | negate operand ih =>
    obtain ⟨x, hx, -⟩ := evalExpr_negate_ok.mp h
    exact ih (hsteps.mono fun _ hm => by simp [Expr.nodes, hm]) hI hx
  | call f args ih =>
    obtain ⟨-, xs, hxs, -⟩ := evalExpr_call_ok.mp h
    refine evalArgs_keeps (fun e he env env' v hI h => ih e he (hsteps.mono ?_) hI h) hI hxs
    intro node hm
    simpa [Expr.nodes] using .inr ⟨e, he, hm⟩
  | conditional c t f ihC ihT ihF =>
    have hsC : StepsKeep I c.nodes := hsteps.mono fun _ hm => by simp [Expr.nodes, hm]
    have hsT : StepsKeep I t.nodes := hsteps.mono fun _ hm => by simp [Expr.nodes, hm]
    have hsF : StepsKeep I f.nodes := hsteps.mono fun _ hm => by simp [Expr.nodes, hm]
    obtain ⟨mask, env₁, hC, hw⟩ := evalExpr_conditional_ok.mp h
    have h₁ : I env₁ := ihC hsC hI hC
    rcases hw with ⟨-, hT⟩ | ⟨-, hF⟩ | ⟨hv, vT, envT, vF, envF, hT, hF, -, rfl⟩
    · exact ihT hsT h₁ hT
    · exact ihF hsF h₁ hF
    -- both branches start from one environment, so theirs have one shape
    · exact hmerge _ _ _ hv ((evalExpr_shape hT).trans (evalExpr_shape hF).symm) (ihT hsT h₁ hT)
        (ihF hsF h₁ hF)
  | step name op =>
    obtain ⟨x, hx, hn, rfl, rfl⟩ := evalExpr_step_ok.mp h
    exact hsteps name op env x (Expr.mem_nodes_self _) hn hx hI
  | misplaced display => simp at h

end

/-! ### Expressions in an expression -/

/-- Evaluating the first expression in the first environment evaluates the second one in the
second environment. -/
inductive Evaluates (angles : Angles) : Env σ β → Expr → Env σ β → Expr → Prop
  | self {env e} : Evaluates angles env e env e
  | operand {env operand env' e'} :
    Evaluates angles env operand env' e' → Evaluates angles env (.negate operand) env' e'
  | argument {env env₁ env' : Env σ β} {f args before e after xs e'} :
    f.arity.accepts args.length = true → args = before ++ e :: after →
    evalArgs angles env f 1 before = .ok (xs, env₁) →
    Evaluates angles env₁ e env' e' → Evaluates angles env (.call f args) env' e'
  | left {env op lhs rhs env' e'} :
    Evaluates angles env lhs env' e' → Evaluates angles env (.binary op lhs rhs) env' e'
  | right {env env₁ env' : Env σ β} {op lhs rhs v e'} :
    op.connective? = none → evalExpr angles env lhs = .ok (v, env₁) →
    Evaluates angles env₁ rhs env' e' → Evaluates angles env (.binary op lhs rhs) env' e'
  | needed {env env₁ env' : Env σ β} {op k lhs rhs b e'} :
    op.connective? = some k → evalExpr angles env lhs = .ok (.boolean b, env₁) →
    Carrier.verdict σ (k.runsRight σ b) = .always ∨
      Carrier.verdict σ (k.runsRight σ b) = .mixed →
    Evaluates angles env₁ rhs env' e' → Evaluates angles env (.binary op lhs rhs) env' e'
  | condition {env c t f env' e'} :
    Evaluates angles env c env' e' → Evaluates angles env (.conditional c t f) env' e'
  | ifTrue {env env₁ env' : Env σ β} {c t f mask e'} :
    evalExpr angles env c = .ok (.boolean mask, env₁) → Carrier.verdict σ mask ≠ .never →
    Evaluates angles env₁ t env' e' → Evaluates angles env (.conditional c t f) env' e'
  /-- The second branch runs alone, or after the first one. -/
  | ifFalse {env env₁ env' : Env σ β} {c t f mask e'} :
    evalExpr angles env c = .ok (.boolean mask, env₁) →
    Carrier.verdict σ mask = .never ∨
      (Carrier.verdict σ mask = .mixed ∧ ∃ r, evalExpr angles env₁ t = .ok r) →
    Evaluates angles env₁ f env' e' → Evaluates angles env (.conditional c t f) env' e'

/-- Evaluating the expression merges two environments at its end. -/
inductive Merges (angles : Angles) (env : Env σ β) : Expr → β → Env σ β → Env σ β → Prop
  | conditional {c t f mask env₁ vT taken vF other} :
    evalExpr angles env c = .ok (.boolean mask, env₁) → Carrier.verdict σ mask = .mixed →
    evalExpr angles env₁ t = .ok (vT, taken) → evalExpr angles env₁ f = .ok (vF, other) →
    Merges angles env (.conditional c t f) mask taken other
  | connective {op k lhs rhs b other vR taken} :
    op.connective? = some k → evalExpr angles env lhs = .ok (.boolean b, other) →
    Carrier.verdict σ (k.runsRight σ b) = .mixed →
    evalExpr angles other rhs = .ok (vR, taken) →
    Merges angles env (.binary op lhs rhs) (k.runsRight σ b) taken other

/-- An environment that the evaluation of an expression passes through. -/
inductive Passes (angles : Angles) (env : Env σ β) (e : Expr) : Env σ β → Prop
  | before {env' e'} : Evaluates angles env e env' e' → Passes angles env e env'
  | after {env₁ e' v env'} :
    Evaluates angles env e env₁ e' → evalExpr angles env₁ e' = .ok (v, env') →
    Passes angles env e env'
  | merged {env₁ e' mask taken other} :
    Evaluates angles env e env₁ e' → Merges angles env₁ e' mask taken other →
    Passes angles env e (Env.merge mask taken other)

/-- Environments that are merged have one shape. -/
theorem Merges.shape_eq {e : Expr} {mask : β} {taken other : Env σ β}
    (h : Merges angles env e mask taken other) : taken.shape = other.shape := by
  cases h with
  | conditional _ _ hT hF => exact (evalExpr_shape hT).trans (evalExpr_shape hF).symm
  | connective _ _ _ hR => exact evalExpr_shape hR

theorem Merges.mixed {e : Expr} {mask : β} {taken other : Env σ β}
    (h : Merges angles env e mask taken other) : Carrier.verdict σ mask = .mixed := by
  cases h with
  | conditional _ hv _ _ => exact hv
  | connective _ _ hv _ => exact hv

/-! ### Statements in a statement -/

/-- Running the first statement in the first state runs the second one in the second state. -/
inductive Runs (angles : Angles) : State σ β → Stmt → State σ β → Stmt → Prop
  | self {s t} : Runs angles s t s t
  | part {s s₁ s' : State σ β} {statements before t after t'} :
    statements = before ++ t :: after → executeAll angles s before = .ok s₁ →
    Runs angles s₁ t s' t' → Runs angles s (.block statements) s' t'

/-- A statement evaluates the expression in the environment, not as a part of another one. -/
inductive Starts (angles : Angles) (s : State σ β) : Stmt → Env σ β → Expr → Prop
  | result {value} : Starts angles s (.result value) s.env value
  | assign {name value} : Starts angles s (.assign name value) s.env value
  | unpack {names value} : Starts angles s (.unpack names value) s.env value
  | assignEach {names values before e after vs env} :
    values = before ++ e :: after → evalAll angles s.env before = .ok (vs, env) →
    Starts angles s (.assignEach names values) env e

/-- A statement that has evaluated its expressions makes some bindings in the environment. -/
inductive Binds (angles : Angles) (s : State σ β) :
    Stmt → Env σ β → List (String × Value σ β) → Prop
  | assign {name value v env} :
    evalExpr angles s.env value = .ok (v, env) → Binds angles s (.assign name value) env [(name, v)]
  | unpack {names value v env axes} :
    evalExpr angles s.env value = .ok (v, env) → v.axes? = some axes →
    axes.length = names.length →
    Binds angles s (.unpack names value) env (names.zip (axes.map .scalar))
  | assignEach {names values vs env} :
    evalAll angles s.env values = .ok (vs, env) →
    Binds angles s (.assignEach names values) env (names.zip vs)

/-- The environment at a moment of the run of a statement, whether or not the run succeeds: when
a statement begins or ends, while an expression is evaluated, and after some of the bindings of
a statement. -/
inductive Moment (angles : Angles) (s : State σ β) (t : Stmt) : Env σ β → Prop
  | begins {s' t'} : Runs angles s t s' t' → Moment angles s t s'.env
  | ends {s' t' s''} :
    Runs angles s t s' t' → execute angles s' t' = .ok s'' → Moment angles s t s''.env
  | evaluating {s' t' env e env'} :
    Runs angles s t s' t' → Starts angles s' t' env e → Passes angles env e env' →
    Moment angles s t env'
  | binding {s' t' env front back env'} :
    Runs angles s t s' t' → Binds angles s' t' env (front ++ back) →
    assignAll env front = .ok env' → Moment angles s t env'

/-- The run of a statement merges the environments. -/
inductive MergesIn (angles : Angles) (s : State σ β) (t : Stmt) (mask : β) (taken other : Env σ β) :
    Prop
  | intro {s' t' env e env' e'} :
    Runs angles s t s' t' → Starts angles s' t' env e → Evaluates angles env e env' e' →
    Merges angles env' e' mask taken other → MergesIn angles s t mask taken other

/-! ### What holds at every moment -/

/-- A property of environments that assignments and merges keep. -/
structure Env.Invariant (I : Env σ β → Prop) : Prop where
  set : ∀ {env : Env σ β} {name : String} (v : Value σ β), name ∉ readOnlyNames → I env →
    I (env.set name v)
  merge : ∀ {mask : β} {taken other : Env σ β}, Carrier.verdict σ mask = .mixed →
    taken.shape = other.shape → I taken → I other → I (Env.merge mask taken other)

namespace Env.Invariant

variable {I : Env σ β → Prop}

theorem evalExpr (hI : Invariant I) {e : Expr} (h₀ : I env)
    (h : evalExpr angles env e = .ok (v, env')) : I env' :=
  evalExpr_keeps (fun _ _ _ => hI.merge) (fun _ _ _ _ _ hn _ => hI.set _ hn) h₀ h

theorem evalArgs (hI : Invariant I) {f : Builtin} {place : Nat} {args : List Expr} {xs : List σ}
    (h₀ : I env) (h : evalArgs angles env f place args = .ok (xs, env')) : I env' :=
  evalArgs_keeps (fun _ _ _ _ _ h₀ h => hI.evalExpr h₀ h) h₀ h

theorem evalAll (hI : Invariant I) {es : List Expr} {vs : List (Value σ β)} (h₀ : I env)
    (h : evalAll angles env es = .ok (vs, env')) : I env' :=
  evalAll_keeps (fun _ _ _ _ _ h₀ h => hI.evalExpr h₀ h) h₀ h

theorem assignAll (hI : Invariant I) {bindings : List (String × Value σ β)} (h₀ : I env)
    (h : assignAll env bindings = .ok env') : I env' := by
  induction bindings generalizing env with
  | nil =>
    simp only [assignAll_nil, Except.ok.injEq] at h
    exact h ▸ h₀
  | cons binding rest ih =>
    obtain ⟨hn, h⟩ := assignAll_cons_ok.mp h
    exact ih (hI.set _ hn h₀) h

theorem execute (hI : Invariant I) {t : Stmt} {s s' : State σ β} (h₀ : I s.env)
    (h : execute angles s t = .ok s') : I s'.env := by
  induction t using Stmt.induction generalizing s s' with
  | assign name value =>
    obtain ⟨w, env₁, hw, hn, rfl⟩ := execute_assign_ok.mp h
    exact hI.set _ hn (hI.evalExpr h₀ hw)
  | unpack names value =>
    obtain ⟨w, env₁, axes, env₂, hw, -, -, hs, rfl⟩ := execute_unpack_ok.mp h
    exact hI.assignAll (hI.evalExpr h₀ hw) hs
  | assignEach names values =>
    obtain ⟨vs, env₁, env₂, hvs, hs, rfl⟩ := execute_assignEach_ok.mp h
    exact hI.assignAll (hI.evalAll h₀ hvs) hs
  | block statements ih =>
    rw [execute_block] at h
    exact executeAll_keeps (J := fun s => I s.env) (fun t ht s s' h₀ h => ih t ht h₀ h) h₀ h
  | result value =>
    obtain ⟨w, env₁, hw, rfl⟩ := execute_result_ok.mp h
    exact hI.evalExpr h₀ hw
  | empty =>
    rw [execute_empty, Except.ok.injEq] at h
    exact h ▸ h₀
  | misplaced display => simp at h

end Env.Invariant

section

variable {I : Env σ β → Prop} {s s' : State σ β} {t t' : Stmt} {e e' : Expr}

theorem Evaluates.keeps (hI : Env.Invariant I) (h : Evaluates angles env e env' e') (h₀ : I env) :
    I env' := by
  induction h with
  | self => exact h₀
  | operand _ ih => exact ih h₀
  | argument _ _ hbefore _ ih => exact ih (hI.evalArgs h₀ hbefore)
  | left _ ih => exact ih h₀
  | right _ hL _ ih => exact ih (hI.evalExpr h₀ hL)
  | needed _ hL _ _ ih => exact ih (hI.evalExpr h₀ hL)
  | condition _ ih => exact ih h₀
  | ifTrue hc _ _ ih => exact ih (hI.evalExpr h₀ hc)
  | ifFalse hc _ _ ih => exact ih (hI.evalExpr h₀ hc)

theorem Merges.keeps (hI : Env.Invariant I) {mask : β} {taken other : Env σ β}
    (h : Merges angles env e mask taken other) (h₀ : I env) : I taken ∧ I other := by
  cases h with
  | conditional hc _ hT hF =>
    have h₁ := hI.evalExpr h₀ hc
    exact ⟨hI.evalExpr h₁ hT, hI.evalExpr h₁ hF⟩
  | connective _ hL _ hR =>
    have h₁ := hI.evalExpr h₀ hL
    exact ⟨hI.evalExpr h₁ hR, h₁⟩

theorem Passes.keeps (hI : Env.Invariant I) (h : Passes angles env e env') (h₀ : I env) :
    I env' := by
  cases h with
  | before hev => exact hev.keeps hI h₀
  | after hev he => exact hI.evalExpr (hev.keeps hI h₀) he
  | merged hev hm =>
    obtain ⟨htaken, hother⟩ := hm.keeps hI (hev.keeps hI h₀)
    exact hI.merge hm.mixed hm.shape_eq htaken hother

theorem Runs.keeps (hI : Env.Invariant I) (h : Runs angles s t s' t') (h₀ : I s.env) :
    I s'.env := by
  induction h with
  | self => exact h₀
  | part _ hbefore _ ih => exact ih (hI.execute h₀ ((execute_block _).trans hbefore))

theorem Starts.keeps (hI : Env.Invariant I) (h : Starts angles s t env e) (h₀ : I s.env) :
    I env := by
  cases h with
  | result => exact h₀
  | assign => exact h₀
  | unpack => exact h₀
  | assignEach _ hbefore => exact hI.evalAll h₀ hbefore

theorem Binds.keeps (hI : Env.Invariant I) {bindings : List (String × Value σ β)}
    (h : Binds angles s t env bindings) (h₀ : I s.env) : I env := by
  cases h with
  | assign hv => exact hI.evalExpr h₀ hv
  | unpack hv _ _ => exact hI.evalExpr h₀ hv
  | assignEach hvs => exact hI.evalAll h₀ hvs

/-- What assignments and merges keep holds at every moment of a run if it does at its beginning. -/
theorem Moment.keeps (hI : Env.Invariant I) (h : Moment angles s t env) (h₀ : I s.env) :
    I env := by
  cases h with
  | begins hr => exact hr.keeps hI h₀
  | ends hr he => exact hI.execute (hr.keeps hI h₀) he
  | evaluating hr hs hp => exact hp.keeps hI (hs.keeps hI (hr.keeps hI h₀))
  | binding hr hb hs => exact hI.assignAll (hb.keeps hI (hr.keeps hI h₀)) hs

end

/-! ### What merges find -/

theorem distinct_invariant : Env.Invariant (Env.Distinct : Env σ β → Prop) where
  set v _ hd := hd.set _ v
  merge _ _ hd _ := hd.of_shape_eq (Env.shape_merge _ _ _)

/-- In a merge every variable of one environment is found in the other one, with a value of its
kind to choose from. -/
theorem MergesIn.found {s : State σ β} {t : Stmt} {mask : β} {taken other : Env σ β}
    (hd : s.env.Distinct) (h : MergesIn angles s t mask taken other) :
    taken.shape = other.shape ∧
      ∀ name v, (name, v) ∈ taken → ∃ v' u, other.get? name = some v' ∧ v'.kind = v.kind ∧
        v.choose? mask v' = some u := by
  obtain ⟨hr, hs, he, hm⟩ := h
  have henv := hs.keeps distinct_invariant (hr.keeps distinct_invariant hd)
  have htaken := (hm.keeps distinct_invariant (he.keeps distinct_invariant henv)).1
  refine ⟨hm.shape_eq, fun name v hmem => ?_⟩
  obtain ⟨v', hv', hkind⟩ :=
    Env.exists_get?_of_shape_eq hm.shape_eq.symm (Env.get?_of_mem htaken hmem)
  obtain ⟨u, hu⟩ : ∃ u, v.choose? mask v' = some u := Value.choose?_isSome hkind.symm
  exact ⟨v', u, hv', hkind, hu⟩

end FieldLang
