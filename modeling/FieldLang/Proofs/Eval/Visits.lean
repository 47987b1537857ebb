/-
The expressions that a run at several points evaluates.

* `Visits` : what evaluating an expression at several points at once evaluates, and in which
  environments;
* `BranchesAgree` : both branches of a conditional, where both are taken, have one kind;
* `evalExpr_error_visits` : where the failures of such an evaluation come from;
* `Visits.runsTogether` : what its success says about all that is evaluated.

Design notes: once one point takes a branch, or the right operand of a connective, it is
evaluated at every point, and with it all that it contains. A point that does not take it is
idle there, and a failure at an idle point fails the evaluation, although the expression has a
value at that point. Nothing else but branches of different kinds does.
-/
import FieldLang.Proofs.Eval.Batch

namespace FieldLang

variable {n : Nat} {angles : Angles}

/-! ### What a run evaluates -/

/-- Evaluating the first expression at several points at once, in the given environments,
evaluates the second one in the second environments. -/
inductive Visits (angles : Angles) :
    (Fin n → Env Float Bool) → Expr → (Fin n → Env Float Bool) → Expr → Prop
  | self {ρ e} : Visits angles ρ e ρ e
  | negate {ρ ρ' operand e'} :
    Visits angles ρ operand ρ' e' → Visits angles ρ (.negate operand) ρ' e'
  | argument {ρ ρ₁ ρ' : Fin n → Env Float Bool} {f args before e after e'}
    {xs : Fin n → List Float} :
    f.arity.accepts args.length = true → args = before ++ e :: after →
    (∀ i, evalArgs angles (ρ i) f 1 before = .ok (xs i, ρ₁ i)) →
    Visits angles ρ₁ e ρ' e' → Visits angles ρ (.call f args) ρ' e'
  | left {ρ ρ' op lhs rhs e'} :
    Visits angles ρ lhs ρ' e' → Visits angles ρ (.binary op lhs rhs) ρ' e'
  | right {ρ ρ₁ ρ' : Fin n → Env Float Bool} {op lhs rhs e'} {v : Fin n → Value Float Bool} :
    op.connective? = none → (∀ i, evalExpr angles (ρ i) lhs = .ok (v i, ρ₁ i)) →
    Visits angles ρ₁ rhs ρ' e' → Visits angles ρ (.binary op lhs rhs) ρ' e'
  /-- The right operand of a connective runs once one point needs it. -/
  | needed {ρ ρ₁ ρ' : Fin n → Env Float Bool} {op k lhs rhs e'} {b : Fin n → Bool} (j : Fin n) :
    op.connective? = some k → (∀ i, evalExpr angles (ρ i) lhs = .ok (.boolean (b i), ρ₁ i)) →
    k.runsRight Float (b j) = true →
    Visits angles ρ₁ rhs ρ' e' → Visits angles ρ (.binary op lhs rhs) ρ' e'
  | condition {ρ ρ' c t f e'} :
    Visits angles ρ c ρ' e' → Visits angles ρ (.conditional c t f) ρ' e'
  /-- A branch runs once one point takes it. -/
  | ifTrue {ρ ρ₁ ρ' : Fin n → Env Float Bool} {c t f e'} {b : Fin n → Bool} (j : Fin n) :
    (∀ i, evalExpr angles (ρ i) c = .ok (.boolean (b i), ρ₁ i)) → b j = true →
    Visits angles ρ₁ t ρ' e' → Visits angles ρ (.conditional c t f) ρ' e'
  | ifFalse {ρ ρ₁ ρ' : Fin n → Env Float Bool} {c t f e'} {b : Fin n → Bool} (j : Fin n) :
    (∀ i, evalExpr angles (ρ i) c = .ok (.boolean (b i), ρ₁ i)) → b j = false →
    Visits angles ρ₁ f ρ' e' → Visits angles ρ (.conditional c t f) ρ' e'

/-- What an expression that is evaluated evaluates is evaluated. -/
theorem Visits.trans {ρ ρ' ρ'' : Fin n → Env Float Bool} {e e' e'' : Expr}
    (h : Visits angles ρ e ρ' e') (h' : Visits angles ρ' e' ρ'' e'') :
    Visits angles ρ e ρ'' e'' := by
  induction h with
  | self => exact h'
  | negate _ ih => exact .negate (ih h')
  | argument hacc hsplit hbefore _ ih => exact .argument hacc hsplit hbefore (ih h')
  | left _ ih => exact .left (ih h')
  | right hop hlhs _ ih => exact .right hop hlhs (ih h')
  | needed j hop hlhs hj _ ih => exact .needed j hop hlhs hj (ih h')
  | condition _ ih => exact .condition (ih h')
  | ifTrue j hcond hj _ ih => exact .ifTrue j hcond hj (ih h')
  | ifFalse j hcond hj _ ih => exact .ifFalse j hcond hj (ih h')

/-- Where some points take one branch and others the other one, the branches have values of
one kind. -/
def BranchesAgree (angles : Angles) (ρ : Fin n → Env Float Bool) (c t f : Expr) : Prop :=
  ∀ (b : Fin n → Bool) (ρ₁ : Fin n → Env Float Bool),
    (∀ i, evalExpr angles (ρ i) c = .ok (.boolean (b i), ρ₁ i)) → ∀ i j vT envT vF envF, b i = true → b j = false →
      evalExpr angles (ρ₁ i) t = .ok (vT, envT) → evalExpr angles (ρ₁ j) f = .ok (vF, envF) →
        vT.kind = vF.kind

/-- Why an expression has no value at several points at once: branches of different kinds, or
an expression that has no value at one of the points that it is evaluated at. -/
def Obstructed (angles : Angles) (ρ : Fin n → Env Float Bool) (e : Expr) (err : EvalError) :
    Prop :=
  (∃ ρ' c t f, Visits angles ρ e ρ' (.conditional c t f) ∧ ¬ BranchesAgree angles ρ' c t f ∧
      ∃ k k', err = .branchKinds k k') ∨
    ∃ (ρ' : Fin n → Env Float Bool) (e' : Expr) (i : Fin n),
      Visits angles ρ e ρ' e' ∧ evalExpr angles (ρ' i) e' = .error err

section

variable {ρ ρ₁ : Fin n → Env Float Bool} {e e₁ : Expr} {err : EvalError}

theorem Obstructed.of_point {i : Fin n} (h : evalExpr angles (ρ i) e = .error err) :
    Obstructed angles ρ e err :=
  .inr ⟨ρ, e, i, .self, h⟩

/-- What obstructs an expression obstructs every expression that evaluates it. -/
theorem Obstructed.lift (h : Obstructed angles ρ₁ e₁ err)
    (hv : ∀ ρ' e', Visits angles ρ₁ e₁ ρ' e' → Visits angles ρ e ρ' e') :
    Obstructed angles ρ e err := by
  rcases h with ⟨ρ', c, t, f, h, hb⟩ | ⟨ρ', e', i, h, he⟩
  · exact .inl ⟨ρ', c, t, f, hv _ _ h, hb⟩
  · exact .inr ⟨ρ', e', i, hv _ _ h, he⟩

end

/-! ### Failures at several points -/

variable {E : Env (Column n Float) (Column n Bool)}

/-- A mixed condition holds at one of the points and does not hold at another one. -/
theorem exists_get_of_mixed {mask : Column n Bool} (hn : n ≠ 0)
    (h : Carrier.verdict (Column n Float) mask = .mixed) :
    ∃ i, mask.get i = true ∧ ∃ j, mask.get j = false := by
  have hm : mask.verdict = .mixed := h
  rcases mask.verdict_spec hn with ⟨hv, -⟩ | ⟨hv, -⟩ | ⟨-, ⟨i, hi⟩, hsome⟩
  · cases hm.symm.trans hv
  · cases hm.symm.trans hv
  · exact ⟨i, hi, hsome⟩

/-- A condition that does not hold nowhere holds at one of the points. -/
theorem exists_get_of_verdict {mask : Column n Bool} (hn : n ≠ 0)
    (h : Carrier.verdict (Column n Float) mask = .always ∨
      Carrier.verdict (Column n Float) mask = .mixed) : ∃ i, mask.get i = true := by
  have hm : mask.verdict = .always ∨ mask.verdict = .mixed := h
  rcases mask.verdict_spec hn with ⟨-, hall⟩ | ⟨hv, -⟩ | ⟨-, hsome, -⟩
  · exact ⟨⟨0, Nat.pos_of_ne_zero hn⟩, hall _⟩
  · rw [hv] at hm
    rcases hm with hm | hm
    · cases hm
    · cases hm
  · exact hsome

private theorem evalArgs_error_visits_of (hn : n ≠ 0) {f : Builtin} {place : Nat}
    {args : List Expr} {err : EvalError}
    (hargs : ∀ a ∈ args, ∀ E : Env (Column n Float) (Column n Bool), E.Distinct →
      evalExpr angles E a = .error err → Obstructed angles E.atPoint a err)
    (hd : E.Distinct) (h : evalArgs angles E f place args = .error err) :
    (∃ (before : List Expr) (a : Expr) (after : List Expr) (xs : Fin n → List Float)
        (ρ₁ : Fin n → Env Float Bool), args = before ++ a :: after ∧
        (∀ i, evalArgs angles (E.atPoint i) f place before = .ok (xs i, ρ₁ i)) ∧
        Obstructed angles ρ₁ a err) ∨
      ∃ i : Fin n, evalArgs angles (E.atPoint i) f place args = .error err := by
  induction args generalizing E place with
  | nil =>
    rw [evalArgs] at h
    cases h
  | cons a rest ih =>
    -- the first argument fails, it is no number, or one behind it fails
    rcases evalArgs_cons_error.mp h with ha | ⟨w, E₁, ha, ⟨hk, rfl⟩ | ⟨hk, hrest⟩⟩
    · exact .inl ⟨[], a, rest, fun _ => [], _, rfl, fun i => evalArgs_nil_ok.mpr ⟨rfl, rfl⟩,
        hargs a (by simp) E hd ha⟩
    · let i₀ : Fin n := ⟨0, Nat.pos_of_ne_zero hn⟩
      exact .inr ⟨i₀, evalArgs_cons_error.mpr (.inr ⟨_, _, evalExpr_atPoint hd ha i₀,
        .inl ⟨by simpa using hk, by simp⟩⟩)⟩
    · have hd₁ : E₁.Distinct := hd.of_shape_eq (evalExpr_shape ha)
      obtain ⟨x, rfl⟩ : ∃ x, w = .scalar x := by
        cases w with
        | scalar x => exact ⟨x, rfl⟩
        | boolean b => cases hk
        | vec2 x y => cases hk
        | vec3 x y z => cases hk
      rcases ih (fun a' h' => hargs a' (by simp [h'])) hd₁ hrest with
        ⟨before, a', after, xs, ρ₁, rfl, hbefore, ho⟩ | ⟨i, hi⟩
      · refine .inl ⟨a :: before, a', after, fun i => x.get i :: xs i, ρ₁, rfl, fun i => ?_, ho⟩
        exact evalArgs_cons_ok.mpr ⟨_, _, _, evalExpr_atPoint hd ha i, hbefore i, rfl⟩
      · exact .inr ⟨i, evalArgs_cons_error.mpr (.inr ⟨_, _, evalExpr_atPoint hd ha i,
          .inr ⟨rfl, hi⟩⟩)⟩

/-- A failure at several points at once is due to branches of different kinds, or it is the
failure of an expression at one of the points that it is evaluated at. -/
theorem evalExpr_error_visits (hn : n ≠ 0) {e : Expr} {err : EvalError} (hd : E.Distinct)
    (h : evalExpr angles E e = .error err) : Obstructed angles E.atPoint e err := by
  let i₀ : Fin n := ⟨0, Nat.pos_of_ne_zero hn⟩
  induction e using Expr.induction generalizing E err with
  | number value => simp at h
  | name name =>
    obtain ⟨hg, rfl⟩ := evalExpr_variable_error.mp h
    exact .of_point (i := i₀) (evalExpr_variable_error.mpr ⟨by rw [Env.get?_atPoint, hg]; rfl, rfl⟩)
  | binary op lhs rhs ihL ihR =>
    cases hop : op.connective? with
    | none =>
      rcases (evalExpr_binary_error hop).mp h with hL | ⟨vL, EL, hL, hR | ⟨vR, ER, hR, ha⟩⟩
      · exact (ihL hd hL).lift fun _ _ => .left
      · have hdL : EL.Distinct := hd.of_shape_eq (evalExpr_shape hL)
        exact (ihR hdL hR).lift fun _ _ => .right hop (evalExpr_atPoint hd hL)
      · have hdL : EL.Distinct := hd.of_shape_eq (evalExpr_shape hL)
        refine .of_point (i := i₀) ((evalExpr_binary_error hop).mpr (.inr ⟨_, _,
          evalExpr_atPoint hd hL i₀, .inr ⟨_, _, evalExpr_atPoint hdL hR i₀, ?_⟩⟩))
        rw [applyBinary_atPoint, ha]
        rfl
    | some k =>
      rcases (evalExpr_connective_error hop).mp h with
        hL | ⟨w, EL, hL, ⟨hk, rfl⟩ | ⟨b, rfl, hv, hw⟩⟩
      · exact (ihL hd hL).lift fun _ _ => .left
      · exact .of_point (i := i₀) ((evalExpr_connective_error hop).mpr (.inr ⟨_, _,
          evalExpr_atPoint hd hL i₀, .inl ⟨by simpa using hk, by simp⟩⟩))
      · have hdL : EL.Distinct := hd.of_shape_eq (evalExpr_shape hL)
        -- the right operand ran, so some point needs it
        obtain ⟨j, hj⟩ := exists_get_of_verdict hn hv
        rw [Connective.get_runsRight] at hj
        rcases hw with hR | ⟨vR, ER, hR, ha⟩
        · exact (ihR hdL hR).lift fun _ _ => .needed j hop (evalExpr_atPoint hd hL) hj
        · refine .of_point (i := j) ((evalExpr_connective_error hop).mpr (.inr ⟨_, _,
            evalExpr_atPoint hd hL j, .inr ⟨b.get j, rfl, .inl (by simp [hj]), .inr ⟨_, _,
            evalExpr_atPoint hdL hR j, ?_⟩⟩⟩))
          rw [applyConnective_atPoint, ha]
          rfl
  | negate operand ih =>
    rcases evalExpr_negate_error.mp h with h | ⟨w, E₁, hw, hk, rfl⟩
    · exact (ih hd h).lift fun _ _ => .negate
    · exact .of_point (i := i₀) (evalExpr_negate_error.mpr (.inr ⟨_, _,
        evalExpr_atPoint hd hw i₀, by simpa using hk, by simp⟩))
  | call f args ih =>
    rcases evalExpr_call_error.mp h with ⟨hacc, rfl⟩ | ⟨hacc, hxs | ⟨xs, E₁, e, hxs, ha, rfl⟩⟩
    · exact .of_point (i := i₀) (evalExpr_call_error.mpr (.inl ⟨hacc, rfl⟩))
    · rcases evalArgs_error_visits_of hn (fun a ha E hd h => ih a ha hd h) hd hxs with
        ⟨before, a, after, ys, ρ₁, hsplit, hbefore, ho⟩ | ⟨i, hi⟩
      · exact ho.lift fun _ _ => .argument hacc hsplit hbefore
      · exact .of_point (evalExpr_call_error.mpr (.inr ⟨hacc, .inl hi⟩))
    · obtain ⟨i, hi⟩ := applyBuiltin_error_atPoint hn ha
      exact .of_point (evalExpr_call_error.mpr (.inr ⟨hacc, .inr ⟨_, _, e,
        evalArgs_atPoint hd hxs i, hi, rfl⟩⟩))
  | conditional c t f ihC ihT ihF =>
    rcases evalExpr_conditional_error.mp h with hC | ⟨w, E₁, hC, ⟨hk, rfl⟩ | ⟨mask, rfl, hw⟩⟩
    · exact (ihC hd hC).lift fun _ _ => .condition
    · exact .of_point (i := i₀) (evalExpr_conditional_error.mpr (.inr ⟨_, _,
        evalExpr_atPoint hd hC i₀, .inl ⟨by simpa using hk, by simp⟩⟩))
    · have hd₁ : E₁.Distinct := hd.of_shape_eq (evalExpr_shape hC)
      have hc := evalExpr_atPoint hd hC
      rcases hw with ⟨hv | hv, hT⟩ | ⟨hv, hF⟩ | ⟨hv, hw⟩
      · exact (ihT hd₁ hT).lift fun _ _ => .ifTrue i₀ hc (get_of_always hv i₀)
      · exact absurd hv (verdict_ne_vacuous i₀)
      · exact (ihF hd₁ hF).lift fun _ _ => .ifFalse i₀ hc (get_of_never hv i₀)
      -- both branches ran, so each is taken by some point
      · obtain ⟨i, hi, j, hj⟩ := exists_get_of_mixed hn hv
        rcases hw with hT | ⟨vT, ET, hT, hF | ⟨vF, EF, hF, hnone, rfl⟩⟩
        · exact (ihT hd₁ hT).lift fun _ _ => .ifTrue i hc hi
        · exact (ihF hd₁ hF).lift fun _ _ => .ifFalse j hc hj
        · refine .inl ⟨_, c, t, f, .self, fun hagree => ?_, _, _, rfl⟩
          have hk := hagree _ _ hc i j _ _ _ _ hi hj (evalExpr_atPoint hd₁ hT i)
            (evalExpr_atPoint hd₁ hF j)
          rw [Value.kind_atPoint, Value.kind_atPoint] at hk
          obtain ⟨u, hu⟩ : ∃ u, vT.choose? mask vF = some u := Value.choose?_isSome hk
          rw [hnone] at hu
          cases hu
  | step name op =>
    refine .of_point (i := i₀) (evalExpr_step_error.mpr ?_)
    rcases evalExpr_step_error.mp h with ⟨hg, rfl⟩ | ⟨w, hg, hk, rfl⟩ | ⟨x, hg, hr, rfl⟩
    · exact .inl ⟨by rw [Env.get?_atPoint, hg]; rfl, rfl⟩
    · exact .inr (.inl ⟨w.atPoint i₀, by rw [Env.get?_atPoint, hg]; rfl, by simpa using hk,
        by simp⟩)
    · exact .inr (.inr ⟨x.get i₀, by rw [Env.get?_atPoint, hg]; rfl, hr, rfl⟩)
  | misplaced display =>
    rw [evalExpr_misplaced] at h
    exact .of_point (i := i₀) ((evalExpr_misplaced display).trans (by simpa using h))

/-! ### Successes at several points -/

variable {E' : Env (Column n Float) (Column n Bool)}

/-- The expression has a value at all points at once in environments that are at each point the
given ones. -/
def RunsTogether (angles : Angles) (ρ : Fin n → Env Float Bool) (e : Expr) : Prop :=
  ∃ (E E' : Env (Column n Float) (Column n Bool)) (V : Value (Column n Float) (Column n Bool)),
    E.Distinct ∧ (∀ i, ρ i = E.atPoint i) ∧ evalExpr angles E e = .ok (V, E')

/-- There is one value and one environment at each point. -/
theorem evalExpr_atPoint_unique {e : Expr} {V : Value (Column n Float) (Column n Bool)}
    {i : Fin n} {v : Value Float Bool} {env : Env Float Bool} (hd : E.Distinct)
    (h : evalExpr angles E e = .ok (V, E'))
    (hi : evalExpr angles (E.atPoint i) e = .ok (v, env)) :
    v = V.atPoint i ∧ env = E'.atPoint i := by
  rw [evalExpr_atPoint hd h i] at hi
  obtain ⟨hv, henv⟩ := Prod.mk.inj (Except.ok.inj hi)
  exact ⟨hv.symm, henv.symm⟩

/-- There is one truth value of a condition at each point. -/
theorem condition_atPoint_unique {c : Expr} {mask : Column n Bool} {b : Fin n → Bool}
    {ρ ρ₁ : Fin n → Env Float Bool} (hd : E.Distinct) (hρ : ∀ i, ρ i = E.atPoint i)
    (h : evalExpr angles E c = .ok (.boolean mask, E'))
    (hcond : ∀ i, evalExpr angles (ρ i) c = .ok (.boolean (b i), ρ₁ i)) (i : Fin n) :
    b i = mask.get i ∧ ρ₁ i = E'.atPoint i := by
  have hi := hcond i
  rw [hρ i] at hi
  obtain ⟨hb, henv⟩ := evalExpr_atPoint_unique hd h hi
  exact ⟨Value.boolean.inj hb, henv⟩

/-- The part of a row of arguments before one of them is evaluated before it. -/
theorem evalArgs_append_ok {σ β : Type} [Carrier σ β] {env env' : Env σ β} {f : Builtin}
    {place : Nat} {before after : List Expr} {xs : List σ}
    (h : evalArgs angles env f place (before ++ after) = .ok (xs, env')) :
    ∃ ys env₁ zs, evalArgs angles env f place before = .ok (ys, env₁) ∧
      evalArgs angles env₁ f (place + before.length) after = .ok (zs, env') := by
  induction before generalizing env place xs with
  | nil => exact ⟨[], env, xs, evalArgs_nil_ok.mpr ⟨rfl, rfl⟩, h⟩
  | cons a rest ih =>
    obtain ⟨x, env₁, xs', ha, hrest, rfl⟩ := evalArgs_cons_ok.mp h
    obtain ⟨ys, env₂, zs, hys, hzs⟩ := ih hrest
    refine ⟨x :: ys, env₂, zs, evalArgs_cons_ok.mpr ⟨x, env₁, ys, ha, hys, rfl⟩, ?_⟩
    rwa [List.length_cons, Nat.add_comm rest.length, ← Nat.add_assoc]

/-- The part of a row of expressions before one of them is evaluated before it. -/
theorem evalAll_append_ok {σ β : Type} [Carrier σ β] {env env' : Env σ β}
    {before after : List Expr} {vs : List (Value σ β)}
    (h : evalAll angles env (before ++ after) = .ok (vs, env')) :
    ∃ us env₁ ws, evalAll angles env before = .ok (us, env₁) ∧
      evalAll angles env₁ after = .ok (ws, env') := by
  induction before generalizing env vs with
  | nil => exact ⟨[], env, vs, evalAll_nil_ok.mpr ⟨rfl, rfl⟩, h⟩
  | cons e rest ih =>
    obtain ⟨w, env₁, vs', he, hrest, rfl⟩ := evalAll_cons_ok.mp h
    obtain ⟨us, env₂, ws, hus, hws⟩ := ih hrest
    exact ⟨w :: us, env₂, ws, evalAll_cons_ok.mpr ⟨w, env₁, us, he, hus, rfl⟩, hws⟩

/-- All that is evaluated has a value at all points at once, if the whole has. -/
theorem Visits.runsTogether {ρ ρ' : Fin n → Env Float Bool} {e e' : Expr}
    (hv : Visits angles ρ e ρ' e') (h : RunsTogether angles ρ e) :
    RunsTogether angles ρ' e' := by
  induction hv with
  | self => exact h
  | negate _ ih =>
    obtain ⟨E, E', V, hd, hρ, h⟩ := h
    obtain ⟨x, hx, -⟩ := evalExpr_negate_ok.mp h
    exact ih ⟨E, E', _, hd, hρ, hx⟩
  | argument hacc hsplit hbefore _ ih =>
    obtain ⟨E, E', V, hd, hρ, h⟩ := h
    obtain ⟨-, xs, hxs, -⟩ := evalExpr_call_ok.mp h
    rw [hsplit] at hxs
    obtain ⟨ys, E₁, zs, hys, hzs⟩ := evalArgs_append_ok hxs
    obtain ⟨x, E₂, rest, ha, -, -⟩ := evalArgs_cons_ok.mp hzs
    refine ih ⟨E₁, E₂, _, hd.of_shape_eq (evalArgs_shape hys), fun i => ?_, ha⟩
    have hi := hbefore i
    rw [hρ i, evalArgs_atPoint hd hys i] at hi
    exact (Prod.mk.inj (Except.ok.inj hi)).2.symm
  | @left ρ ρ' op lhs rhs e' _ ih =>
    obtain ⟨E, E', V, hd, hρ, h⟩ := h
    cases hop : op.connective? with
    | none =>
      obtain ⟨vL, EL, vR, hL, -, -⟩ := (evalExpr_binary_ok hop).mp h
      exact ih ⟨E, EL, vL, hd, hρ, hL⟩
    | some k =>
      obtain ⟨b, EL, hL, -⟩ := (evalExpr_connective_ok hop).mp h
      exact ih ⟨E, EL, _, hd, hρ, hL⟩
  | right hop hlhs _ ih =>
    obtain ⟨E, E', V, hd, hρ, h⟩ := h
    obtain ⟨vL, EL, vR, hL, hR, -⟩ := (evalExpr_binary_ok hop).mp h
    refine ih ⟨EL, E', vR, hd.of_shape_eq (evalExpr_shape hL), fun i => ?_, hR⟩
    have hi := hlhs i
    rw [hρ i] at hi
    exact (evalExpr_atPoint_unique hd hL hi).2
  | needed j hop hlhs hj _ ih =>
    obtain ⟨E, E', V, hd, hρ, h⟩ := h
    obtain ⟨b, EL, hL, hw⟩ := (evalExpr_connective_ok hop).mp h
    have hat := condition_atPoint_unique hd hρ hL hlhs
    have hdL : EL.Distinct := hd.of_shape_eq (evalExpr_shape hL)
    -- the point `j` needs the right operand, so it is not skipped for all
    rcases hw with ⟨hv | hv, -, -⟩ | ⟨-, vR, hR, -⟩ | ⟨-, vR, ER, hR, -, -⟩
    · rw [(hat j).1, ← Connective.get_runsRight, get_of_never hv j] at hj
      cases hj
    · exact absurd hv (verdict_ne_vacuous j)
    · exact ih ⟨EL, _, vR, hdL, fun i => (hat i).2, hR⟩
    · exact ih ⟨EL, _, vR, hdL, fun i => (hat i).2, hR⟩
  | condition _ ih =>
    obtain ⟨E, E', V, hd, hρ, h⟩ := h
    obtain ⟨mask, E₁, hC, -⟩ := evalExpr_conditional_ok.mp h
    exact ih ⟨E, E₁, _, hd, hρ, hC⟩
  | ifTrue j hcond hj _ ih =>
    obtain ⟨E, E', V, hd, hρ, h⟩ := h
    obtain ⟨mask, E₁, hC, hw⟩ := evalExpr_conditional_ok.mp h
    have hat := condition_atPoint_unique hd hρ hC hcond
    have hd₁ : E₁.Distinct := hd.of_shape_eq (evalExpr_shape hC)
    rcases hw with ⟨-, hT⟩ | ⟨hv, -⟩ | ⟨-, vT, ET, vF, EF, hT, -⟩
    · exact ih ⟨E₁, _, _, hd₁, fun i => (hat i).2, hT⟩
    · rw [(hat j).1, get_of_never hv j] at hj
      cases hj
    · exact ih ⟨E₁, _, _, hd₁, fun i => (hat i).2, hT⟩
  | ifFalse j hcond hj _ ih =>
    obtain ⟨E, E', V, hd, hρ, h⟩ := h
    obtain ⟨mask, E₁, hC, hw⟩ := evalExpr_conditional_ok.mp h
    have hat := condition_atPoint_unique hd hρ hC hcond
    have hd₁ : E₁.Distinct := hd.of_shape_eq (evalExpr_shape hC)
    rcases hw with ⟨hv | hv, -⟩ | ⟨-, hF⟩ | ⟨-, vT, ET, vF, EF, -, hF, -⟩
    · rw [(hat j).1, get_of_always hv j] at hj
      cases hj
    · exact absurd hv (verdict_ne_vacuous j)
    · exact ih ⟨E₁, _, _, hd₁, fun i => (hat i).2, hF⟩
    · exact ih ⟨E₁, _, _, hd₁, fun i => (hat i).2, hF⟩

/-- What has a value at all points at once has one at each of them. -/
theorem RunsTogether.atPoint {ρ : Fin n → Env Float Bool} {e : Expr}
    (h : RunsTogether angles ρ e) (i : Fin n) : ∃ r, evalExpr angles (ρ i) e = .ok r := by
  obtain ⟨E, E', V, hd, hρ, h⟩ := h
  rw [hρ i]
  exact ⟨_, evalExpr_atPoint hd h i⟩

/-- The branches of a conditional with a value at all points at once agree. -/
theorem RunsTogether.branchesAgree {ρ : Fin n → Env Float Bool} {c t f : Expr}
    (h : RunsTogether angles ρ (.conditional c t f)) : BranchesAgree angles ρ c t f := by
  obtain ⟨E, E', V, hd, hρ, h⟩ := h
  intro b ρ₁ hcond i j vT envT vF envF hi hj hT hF
  obtain ⟨mask, E₁, hC, hw⟩ := evalExpr_conditional_ok.mp h
  have hd₁ : E₁.Distinct := hd.of_shape_eq (evalExpr_shape hC)
  have hat := condition_atPoint_unique hd hρ hC hcond
  rcases hw with ⟨hv | hv, -⟩ | ⟨hv, -⟩ | ⟨-, wT, ET, wF, EF, hwT, hwF, hc, -⟩
  · rw [(hat j).1, get_of_always hv j] at hj
    cases hj
  · exact absurd hv (verdict_ne_vacuous i)
  · rw [(hat i).1, get_of_never hv i] at hi
    cases hi
  · rw [(hat i).2] at hT
    rw [(hat j).2] at hF
    rw [(evalExpr_atPoint_unique hd₁ hwT hT).1, (evalExpr_atPoint_unique hd₁ hwF hF).1,
      Value.kind_atPoint, Value.kind_atPoint]
    exact (Value.choose?_some hc).2

end FieldLang
