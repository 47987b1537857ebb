/-
Expressions keep the names and kinds of variables.

* `Env.shape` : the names of an environment with the kinds of their values;
* `Env.shape_set`, `Env.shape_merge` : rebinding and merging keep it;
* `evalExpr_shape`, `evalArgs_shape`, `evalAll_shape` : so does the evaluation of expressions;
* `evalExpr_shape_congr` : what is alike before an expression is alike behind it;
* `Env.Distinct`, `initialEnv_distinct` : no name is bound twice.

Design notes: an expression only steps variables that hold a number. Both environments of a
mixed condition therefore have the shape of the one before it, which is what makes a merge
point by point possible.
-/
import FieldLang.Proofs.Eval.Inversion
import Mathlib.Data.List.Nodup

namespace FieldLang

variable {σ β : Type}

namespace Env

/-- The names of an environment with the kinds of their values. -/
def shape (env : Env σ β) : List (String × Kind) := env.map fun (n, v) => (n, v.kind)

/-- No name is bound twice. -/
def Distinct (env : Env σ β) : Prop := (env.map Prod.fst).Nodup

theorem map_fst_shape (env : Env σ β) : env.shape.map Prod.fst = env.map Prod.fst := by
  simp [shape, Function.comp_def]

/-- Whether names are bound twice depends on the shape alone. -/
theorem Distinct.of_shape_eq {σ' β' : Type} {env : Env σ β} {env' : Env σ' β'}
    (h : env.Distinct) (hs : env'.shape = env.shape) : env'.Distinct := by
  rw [Distinct, ← map_fst_shape, hs, map_fst_shape]
  exact h

/-- Rebinding a variable to a value of its kind keeps the shape. -/
theorem shape_set {env : Env σ β} {name : String} {old v : Value σ β}
    (h : env.get? name = some old) (hk : v.kind = old.kind) :
    (env.set name v).shape = env.shape := by
  induction env with
  | nil => simp [get?] at h
  | cons entry rest ih =>
    obtain ⟨n, w⟩ := entry
    by_cases hn : n = name
    · subst hn
      have hw : w = old := by simpa [get?] using h
      subst hw
      simp [set, shape, hk]
    · have hr : get? rest name = some old := by simpa [get?, hn] using h
      have ih' := ih hr
      simp only [shape] at ih'
      simp [set, hn, shape, ih']

/-- The names after binding a variable: a new name comes last. -/
theorem map_fst_set (env : Env σ β) (name : String) (v : Value σ β) :
    (env.set name v).map Prod.fst =
      if name ∈ env.map Prod.fst then env.map Prod.fst else env.map Prod.fst ++ [name] := by
  induction env with
  | nil => simp [set]
  | cons entry rest ih =>
    obtain ⟨n, w⟩ := entry
    by_cases hn : n = name
    · simp [set, hn]
    -- the first name is another one, so what is bound behind it decides
    · simp only [set, hn, if_false, List.map_cons, ih, List.mem_cons, Ne.symm hn, false_or]
      split
      · rfl
      · rfl

theorem Distinct.set {env : Env σ β} (h : env.Distinct) (name : String) (v : Value σ β) :
    (env.set name v).Distinct := by
  rw [Distinct, map_fst_set]
  by_cases hm : name ∈ env.map Prod.fst
  · rw [if_pos hm]
    exact h
  · rw [if_neg hm]
    exact List.nodup_append.mpr ⟨h, List.nodup_singleton _, by
      intro a ha b hb
      rw [List.mem_singleton.mp hb]
      intro e
      exact hm (e ▸ ha)⟩

end Env

variable [Carrier σ β] {angles : Angles} {env env' : Env σ β} {v : Value σ β}

/-- A value chosen point by point has the kind of both values. -/
theorem Value.choose?_some {mask : β} {w u : Value σ β} (h : v.choose? mask w = some u) :
    u.kind = v.kind ∧ v.kind = w.kind := by
  cases v <;> cases w <;> simp [Value.choose?] at h <;> subst h <;> exact ⟨rfl, rfl⟩

/-- Values of one kind can be chosen from. -/
theorem Value.choose?_isSome {mask : β} {w : Value σ β} (h : v.kind = w.kind) :
    ∃ u, v.choose? mask w = some u := by
  cases v <;> cases w <;> simp [Value.kind] at h <;> exact ⟨_, rfl⟩

/-- A merge has the shape of its first environment. -/
theorem Env.shape_merge (mask : β) (taken other : Env σ β) :
    (Env.merge mask taken other).shape = taken.shape := by
  simp only [Env.shape, Env.merge, List.map_map]
  refine List.map_congr_left ?_
  rintro ⟨n, w⟩ -
  simp only [Function.comp_apply]
  cases other.get? n with
  | none => rfl
  | some w' =>
    show (n, ((w.choose? mask w').getD w).kind) = (n, w.kind)
    cases hc : w.choose? mask w' with
    | none => rfl
    | some u => rw [Option.getD_some, (Value.choose?_some hc).1]

/-- The evaluation of an expression binds no new name and keeps every kind. -/
theorem evalExpr_shape {e : Expr} (h : evalExpr angles env e = .ok (v, env')) :
    env'.shape = env.shape := by
  induction e using Expr.induction generalizing env env' v with
  | number value =>
    simp only [evalExpr_number, Except.ok.injEq, Prod.mk.injEq] at h
    rw [h.2]
  | name name =>
    rw [(evalExpr_variable_ok.mp h).2]
  | binary op lhs rhs ihL ihR =>
    cases hop : op.connective? with
    | none =>
      obtain ⟨vL, envL, vR, hL, hR, -⟩ := (evalExpr_binary_ok hop).mp h
      rw [ihR hR, ihL hL]
    | some k =>
      obtain ⟨b, envL, hL, hw⟩ := (evalExpr_connective_ok hop).mp h
      rcases hw with ⟨-, -, rfl⟩ | ⟨-, vR, hR, -⟩ | ⟨-, vR, envR, hR, -, rfl⟩
      · exact ihL hL
      · rw [ihR hR, ihL hL]
      · rw [Env.shape_merge, ihR hR, ihL hL]
  | negate operand ih =>
    obtain ⟨x, hx, -⟩ := evalExpr_negate_ok.mp h
    exact ih hx
  | call f args ih =>
    obtain ⟨-, xs, hxs, -⟩ := evalExpr_call_ok.mp h
    exact evalArgs_keeps (I := fun env₁ => env₁.shape = env.shape)
      (fun e he env₁ env₂ v hs h => (ih e he h).trans hs) rfl hxs
  | conditional c t f ihC ihT ihF =>
    obtain ⟨mask, env₁, hC, hw⟩ := evalExpr_conditional_ok.mp h
    rcases hw with ⟨-, hT⟩ | ⟨-, hF⟩ | ⟨-, vT, envT, vF, envF, hT, -, -, rfl⟩
    · rw [ihT hT, ihC hC]
    · rw [ihF hF, ihC hC]
    -- a merge takes the names of the branch that is taken where the condition holds
    · rw [Env.shape_merge, ihT hT, ihC hC]
  | step name op =>
    obtain ⟨x, hx, -, rfl, rfl⟩ := evalExpr_step_ok.mp h
    exact Env.shape_set hx rfl
  | misplaced display => simp at h

theorem evalArgs_shape {f : Builtin} {place : Nat} {args : List Expr} {xs : List σ}
    (h : evalArgs angles env f place args = .ok (xs, env')) : env'.shape = env.shape :=
  evalArgs_keeps (I := fun env₁ => env₁.shape = env.shape)
    (fun _ _ _ _ _ hs he => (evalExpr_shape he).trans hs) rfl h

theorem evalAll_shape {es : List Expr} {vs : List (Value σ β)}
    (h : evalAll angles env es = .ok (vs, env')) : env'.shape = env.shape :=
  evalAll_keeps (I := fun env₁ => env₁.shape = env.shape)
    (fun _ _ _ _ _ hs he => (evalExpr_shape he).trans hs) rfl h

section

variable {σ' β' : Type} [Carrier σ' β'] {env₁ env₁' : Env σ' β'}

/-- After an expression, environments that had one shape have one shape. -/
theorem evalExpr_shape_congr {e : Expr} {w : Value σ' β'} (hs : env.shape = env₁.shape)
    (h : evalExpr angles env e = .ok (v, env')) (h₁ : evalExpr angles env₁ e = .ok (w, env₁')) :
    env'.shape = env₁'.shape := by
  rw [evalExpr_shape h, evalExpr_shape h₁, hs]

theorem evalAll_shape_congr {es : List Expr} {vs : List (Value σ β)} {ws : List (Value σ' β')}
    (hs : env.shape = env₁.shape) (h : evalAll angles env es = .ok (vs, env'))
    (h₁ : evalAll angles env₁ es = .ok (ws, env₁')) : env'.shape = env₁'.shape := by
  rw [evalAll_shape h, evalAll_shape h₁, hs]

end

theorem initialEnv_distinct (x y z : σ) :
    (initialEnv angles x y z : Env σ β).Distinct := by
  show ["x", "y", "z", "a0", "a1"].Nodup
  decide

end FieldLang
