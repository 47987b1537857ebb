/-
Runs at no points.

* `Together` : the expressions that a run at no points and one at several points both evaluate;
* `Untaken` : what the run at no points evaluates although no point takes it;
* `CountsKnown`, `UntakenRun`, `UntakenAgree` : octaves can be counted without points, and what no
  point takes has a value, of the kind that the points get;
* `evalExpr_branch_noPoints` : the branch that is evaluated without points, seen from the points;
* `evalExpr_kind`, `evalExpr_stranded` : the value of an expression without points has the kind that
  it has at the points, and there is one but for these reasons;
* `execute_sameKinds`, `execute_stranded` : the same for statements;
* `evaluateMany_nil` : what becomes of a program at no points that has distances at some.

Design notes: without points a condition that depends on the point holds everywhere, so the first
branch is evaluated, and a connective stops at its left operand. A condition that does not depend on
the point keeps its truth value, but its value may be another one than it is at the points, since
the steps of an operand that was not evaluated are missing.
-/
import FieldLang.Proofs.Eval.Kinds
import FieldLang.Proofs.Syntax.Nodes

namespace FieldLang

variable {n : Nat} {angles : Angles}

/-- The bindings of a run at `n` points. -/
abbrev BatchEnv (n : Nat) := Env (Column n Float) (Column n Bool)

/-- A condition without points does not hold here and there. -/
theorem Column.verdict_noPoints (mask : Column 0 Bool) : mask.verdict ≠ .mixed := by
  cases mask with
  | const b => cases b <;> simp [verdict]
  | each values => simp [verdict]

/-! ### What both runs evaluate -/

/-- Evaluating the expressions in a row, from the given environments, both runs come to one of
them. -/
inductive InRow (angles : Angles) :
    BatchEnv 0 → BatchEnv n → List Expr → BatchEnv 0 → BatchEnv n → Expr → Prop
  | head {O E e es} : InRow angles O E (e :: es) O E e
  | next {O O₁ O' E E₁ E' e es e' v₀ v} :
    evalExpr angles O e = .ok (v₀, O₁) → evalExpr angles E e = .ok (v, E₁) →
    InRow angles O₁ E₁ es O' E' e' → InRow angles O E (e :: es) O' E' e'

/-- Evaluating the first expression, from the given environments, both the run at no points and the
one at `n` points come to the second expression, which a point takes. -/
inductive Together (angles : Angles) :
    BatchEnv 0 → BatchEnv n → Expr → BatchEnv 0 → BatchEnv n → Expr → Prop
  | self {O E e} : Together angles O E e O E e
  | negate {O O' E E' operand e'} :
    Together angles O E operand O' E' e' → Together angles O E (.negate operand) O' E' e'
  | argument {O O₁ O' E E₁ E' f args e e'} :
    InRow angles O E args O₁ E₁ e → Together angles O₁ E₁ e O' E' e' →
    Together angles O E (.call f args) O' E' e'
  | left {O O' E E' op lhs rhs e'} :
    Together angles O E lhs O' E' e' → Together angles O E (.binary op lhs rhs) O' E' e'
  | right {O O₁ O' E E₁ E' op lhs rhs e' v₀ v} :
    op.connective? = none → evalExpr angles O lhs = .ok (v₀, O₁) →
    evalExpr angles E lhs = .ok (v, E₁) →
    Together angles O₁ E₁ rhs O' E' e' → Together angles O E (.binary op lhs rhs) O' E' e'
  /-- The right operand of a connective runs without points only if it runs for all of them. -/
  | needed {O O₁ O' E E₁ E' op k lhs rhs e' b₀ b} (j : Fin n) :
    op.connective? = some k → evalExpr angles O lhs = .ok (.boolean b₀, O₁) →
    evalExpr angles E lhs = .ok (.boolean b, E₁) →
    (k.runsRight (Column 0 Float) b₀).verdict = .always →
    (k.runsRight (Column n Float) b).get j = true →
    Together angles O₁ E₁ rhs O' E' e' → Together angles O E (.binary op lhs rhs) O' E' e'
  | condition {O O' E E' c t f e'} :
    Together angles O E c O' E' e' → Together angles O E (.conditional c t f) O' E' e'
  | ifTrue {O O₁ O' E E₁ E' c t f e' m₀ m} (j : Fin n) :
    evalExpr angles O c = .ok (.boolean m₀, O₁) → evalExpr angles E c = .ok (.boolean m, E₁) →
    m₀.verdict ≠ .never → m.get j = true →
    Together angles O₁ E₁ t O' E' e' → Together angles O E (.conditional c t f) O' E' e'
  | ifFalse {O O₁ O' E E₁ E' c t f e' m₀ m} (j : Fin n) :
    evalExpr angles O c = .ok (.boolean m₀, O₁) → evalExpr angles E c = .ok (.boolean m, E₁) →
    m₀.verdict = .never → m.get j = false →
    Together angles O₁ E₁ f O' E' e' → Together angles O E (.conditional c t f) O' E' e'

/-- The run at no points evaluates a branch of the expression, or its right operand, and none of the
`n` points takes it. -/
inductive Untaken (angles : Angles) :
    BatchEnv 0 → BatchEnv n → Expr → BatchEnv 0 → Expr → Prop
  | right {O O₁ E E₁ op k lhs rhs b₀ b} :
    op.connective? = some k → evalExpr angles O lhs = .ok (.boolean b₀, O₁) →
    evalExpr angles E lhs = .ok (.boolean b, E₁) →
    (k.runsRight (Column 0 Float) b₀).verdict = .always →
    (∀ i, (k.runsRight (Column n Float) b).get i = false) →
    Untaken angles O E (.binary op lhs rhs) O₁ rhs
  | ifTrue {O O₁ E E₁ c t f m₀ m} :
    evalExpr angles O c = .ok (.boolean m₀, O₁) → evalExpr angles E c = .ok (.boolean m, E₁) →
    m₀.verdict ≠ .never → (∀ i : Fin n, m.get i = false) →
    Untaken angles O E (.conditional c t f) O₁ t
  | ifFalse {O O₁ E E₁ c t f m₀ m} :
    evalExpr angles O c = .ok (.boolean m₀, O₁) → evalExpr angles E c = .ok (.boolean m, E₁) →
    m₀.verdict = .never → (∀ i : Fin n, m.get i = true) →
    Untaken angles O E (.conditional c t f) O₁ f

/-! ### Conditions on what both runs evaluate -/

/-- Octaves, if the function counts any, are counted by one finite number for all points. -/
def KnowsCount (f : Builtin) (xs : List (Column 0 Float)) : Prop :=
  ∀ i, f.octaveArgument xs.length = some i → ∃ a : Float, xs.get i = .const a ∧ a.isFinite = true

/-- Of the expressions that both runs evaluate, every call can count its octaves without points. -/
def CountsKnown (angles : Angles) (R : BatchEnv 0 → BatchEnv n → Expr → Prop) : Prop :=
  ∀ O E f args, R O E (.call f args) →
    ∀ xs O', evalArgs angles O f 1 args = .ok (xs, O') → KnowsCount f xs

/-- What the run at no points evaluates there although no point takes it has a value. -/
def UntakenRun (angles : Angles) (R : BatchEnv 0 → BatchEnv n → Expr → Prop) : Prop :=
  ∀ O E e, R O E e → ∀ O₁ e₁, Untaken angles O E e O₁ e₁ → ∃ r, evalExpr angles O₁ e₁ = .ok r

/-- If it has a value, that has the kind of what the points get. -/
def UntakenAgree (angles : Angles) (R : BatchEnv 0 → BatchEnv n → Expr → Prop) : Prop :=
  ∀ O E e, R O E e → ∀ O₁ e₁, Untaken angles O E e O₁ e₁ → ∀ v₀ O' v E',
    evalExpr angles O₁ e₁ = .ok (v₀, O') → evalExpr angles E e = .ok (v, E') → v₀.kind = v.kind

/-- Why there is no value without points: octaves that cannot be counted, or the failure of what no
point takes. -/
def Stranded (angles : Angles) (R : BatchEnv 0 → BatchEnv n → Expr → Prop) (err : EvalError) :
    Prop :=
  (∃ O E f args xs O' c, R O E (.call f args) ∧ evalArgs angles O f 1 args = .ok (xs, O') ∧
      ¬ KnowsCount f xs ∧ err = .call c) ∨
    ∃ O E e O₁ e₁, R O E e ∧ Untaken angles O E e O₁ e₁ ∧ evalExpr angles O₁ e₁ = .error err

section

variable {R R' : BatchEnv 0 → BatchEnv n → Expr → Prop} {err : EvalError}

theorem UntakenAgree.anti (h : UntakenAgree angles R') (hsub : ∀ O E e, R O E e → R' O E e) :
    UntakenAgree angles R :=
  fun O E e he => h O E e (hsub O E e he)

theorem Stranded.mono (h : Stranded angles R err) (hsub : ∀ O E e, R O E e → R' O E e) :
    Stranded angles R' err := by
  rcases h with ⟨O, E, f, args, xs, O', c, hcall, h⟩ | ⟨O, E, e, O₁, e₁, he, h⟩
  · exact .inl ⟨O, E, f, args, xs, O', c, hsub _ _ _ hcall, h⟩
  · exact .inr ⟨O, E, e, O₁, e₁, hsub _ _ _ he, h⟩

/-- There is no such reason where octaves can be counted and what no point takes has a value. -/
theorem not_stranded (hcounts : CountsKnown angles R) (huntaken : UntakenRun angles R) :
    ¬ Stranded angles R err := by
  rintro (⟨O, E, f, args, xs, O', c, hcall, hxs, hunknown, -⟩ | ⟨O, E, e, O₁, e₁, he, hu, herr⟩)
  · exact hunknown (hcounts O E f args hcall xs O' hxs)
  · obtain ⟨r, hr⟩ := huntaken O E e he O₁ e₁ hu
    cases hr.symm.trans herr

end

theorem Column.checkOctaves_noPoints {count : Column 0 Float} :
    count.checkOctaves = .ok () ↔ ∃ a : Float, count = .const a ∧ a.isFinite = true := by
  cases count with
  | const a => simp [checkOctaves, checkOctavesAt]
  | each values =>
    simp only [checkOctaves, reduceCtorEq, false_and, exists_false, iff_false]
    split <;> simp

theorem knowsCount_iff {f : Builtin} {xs : List (Column 0 Float)} :
    checkOctaveArgument (β := Column 0 Bool) f (Vector.mk xs.toArray rfl) = .ok () ↔
      KnowsCount f xs := by
  rw [checkOctaveArgument, KnowsCount]
  cases f.octaveArgument xs.length with
  | none => simp
  | some i =>
    have hcount : Carrier.checkOctaves (Column 0 Bool) (xs.get i) = .ok () ↔
        ∃ a : Float, xs.get i = .const a ∧ a.isFinite = true := Column.checkOctaves_noPoints
    refine hcount.trans ⟨fun h j hj => ?_, fun h => h i rfl⟩
    cases hj
    exact h

/-! ### Values at the points that take an operand or a branch -/

section Taken

variable {E E₁ E' : BatchEnv n} {V : Value (Column n Float) (Column n Bool)} {j : Fin n}

/-- A point that needs the right operand of a connective makes it run. -/
theorem evalExpr_right_of_get {op : BinOp} {k : Connective} {lhs rhs : Expr} {b : Column n Bool}
    (hop : op.connective? = some k) (hL : evalExpr angles E lhs = .ok (.boolean b, E₁))
    (h : evalExpr angles E (.binary op lhs rhs) = .ok (V, E'))
    (hj : (k.runsRight (Column n Float) b).get j = true) :
    ∃ b' E₂, evalExpr angles E₁ rhs = .ok (.boolean b', E₂) := by
  obtain ⟨b', E₁', hL', hw⟩ := (evalExpr_connective_ok hop).mp h
  cases hL.symm.trans hL'
  rcases hw with ⟨hv | hv, -⟩ | ⟨-, vR, hR, hc⟩ | ⟨-, vR, E₂, hR, hc, -⟩
  · rw [get_of_never hv j] at hj
    cases hj
  · exact absurd hv (verdict_ne_vacuous j)
  · obtain ⟨b', rfl, -⟩ := applyConnective_ok.mp hc
    exact ⟨b', _, hR⟩
  · obtain ⟨b', rfl, -⟩ := applyConnective_ok.mp hc
    exact ⟨b', _, hR⟩

variable {c t f : Expr} {m : Column n Bool} (hC : evalExpr angles E c = .ok (.boolean m, E₁))
  (h : evalExpr angles E (.conditional c t f) = .ok (V, E'))
include hC h

/-- A point where the condition holds makes the first branch run. -/
theorem evalExpr_ifTrue_of_get (hj : m.get j = true) :
    ∃ vT ET, evalExpr angles E₁ t = .ok (vT, ET) ∧ vT.kind = V.kind := by
  obtain ⟨m', E₁', hC', hw⟩ := evalExpr_conditional_ok.mp h
  cases hC.symm.trans hC'
  rcases hw with ⟨-, hT⟩ | ⟨hv, -⟩ | ⟨-, vT, ET, vF, EF, hT, -, hchosen, -⟩
  · exact ⟨V, E', hT, rfl⟩
  · rw [get_of_never hv j] at hj
    cases hj
  · exact ⟨vT, ET, hT, (Value.choose?_some hchosen).1.symm⟩

/-- A point where it does not makes the second branch run. -/
theorem evalExpr_ifFalse_of_get (hj : m.get j = false) :
    ∃ vF EF, evalExpr angles E₁ f = .ok (vF, EF) ∧ vF.kind = V.kind := by
  obtain ⟨m', E₁', hC', hw⟩ := evalExpr_conditional_ok.mp h
  cases hC.symm.trans hC'
  rcases hw with ⟨hv | hv, -⟩ | ⟨-, hF⟩ | ⟨-, vT, ET, vF, EF, -, hF, hchosen, -⟩
  · rw [get_of_always hv j] at hj
    cases hj
  · exact absurd hv (verdict_ne_vacuous j)
  · exact ⟨V, E', hF, rfl⟩
  · obtain ⟨hkind, hkinds⟩ := Value.choose?_some hchosen
    exact ⟨vF, EF, hF, (hkind.trans hkinds).symm⟩

end Taken

section NoPoints

variable {O O₁ : BatchEnv 0} {c t f : Expr} {m₀ : Column 0 Bool}
  (hC : evalExpr angles O c = .ok (.boolean m₀, O₁))
include hC

/-- Without points the second branch runs where the condition is known not to hold. -/
theorem evalExpr_ifFalse_noPoints (hv : m₀.verdict = .never) :
    evalExpr angles O (.conditional c t f) = evalExpr angles O₁ f := by
  have hv : Carrier.verdict (Column 0 Float) m₀ = .never := hv
  rw [evalExpr, hC]
  simp only [bind, Except.bind, hv]

/-- And else the first one. -/
theorem evalExpr_ifTrue_noPoints (hv : m₀.verdict ≠ .never) :
    evalExpr angles O (.conditional c t f) = evalExpr angles O₁ t := by
  rw [evalExpr, hC]
  have hmixed : Carrier.verdict (Column 0 Float) m₀ ≠ .mixed := m₀.verdict_noPoints
  have hnever : Carrier.verdict (Column 0 Float) m₀ ≠ .never := hv
  cases h : Carrier.verdict (Column 0 Float) m₀ with
  | always => simp only [bind, Except.bind, h]
  | vacuous => simp only [bind, Except.bind, h]
  | never => exact absurd h hnever
  | mixed => exact absurd h hmixed

end NoPoints

/-- The right operand of a connective, if it runs without points, has a value if the whole has. -/
theorem evalExpr_right_noPoints {O O₁ : BatchEnv 0} {op : BinOp} {k : Connective} {lhs rhs : Expr}
    {b₀ : Column 0 Bool} (hop : op.connective? = some k)
    (hL : evalExpr angles O lhs = .ok (.boolean b₀, O₁))
    (hv : (k.runsRight (Column 0 Float) b₀).verdict = .always)
    (h : ∃ r, evalExpr angles O (.binary op lhs rhs) = .ok r) :
    ∃ r, evalExpr angles O₁ rhs = .ok r := by
  obtain ⟨⟨v, O'⟩, h⟩ := h
  obtain ⟨b, O₂, hL', hw⟩ := (evalExpr_connective_ok hop).mp h
  cases hL.symm.trans hL'
  rcases hw with ⟨hv' | hv', -⟩ | ⟨-, vR, hR, -⟩ | ⟨-, vR, O₃, hR, -⟩
  · cases hv.symm.trans hv'
  · cases hv.symm.trans hv'
  · exact ⟨_, hR⟩
  · exact ⟨_, hR⟩

/-- The branch of a conditional that is evaluated without points is one that no point takes, or both
runs come to it and it has a value of the kind that the points get. -/
theorem evalExpr_branch_noPoints {O O₁ : BatchEnv 0} {E E₁ E' : BatchEnv n} {c t f : Expr}
    {m₀ : Column 0 Bool} {m : Column n Bool} {v : Value (Column n Float) (Column n Bool)}
    (hC₀ : evalExpr angles O c = .ok (.boolean m₀, O₁))
    (hC : evalExpr angles E c = .ok (.boolean m, E₁))
    (h : evalExpr angles E (.conditional c t f) = .ok (v, E')) :
    ∃ e, (e = t ∨ e = f) ∧ evalExpr angles O (.conditional c t f) = evalExpr angles O₁ e ∧
      (Untaken angles O E (.conditional c t f) O₁ e ∨
        (∀ O' E'' e', Together angles O₁ E₁ e O' E'' e' →
          Together angles O E (.conditional c t f) O' E'' e') ∧
        ∃ w E₂, evalExpr angles E₁ e = .ok (w, E₂) ∧ w.kind = v.kind) := by
  by_cases hv : m₀.verdict = .never
  · refine ⟨f, .inr rfl, evalExpr_ifFalse_noPoints hC₀ hv, ?_⟩
    by_cases hj : ∃ j, m.get j = false
    · obtain ⟨j, hj⟩ := hj
      exact .inr ⟨fun _ _ _ => .ifFalse j hC₀ hC hv hj, evalExpr_ifFalse_of_get hC h hj⟩
    · have hall : ∀ i, m.get i = true := by simpa using hj
      exact .inl (.ifFalse hC₀ hC hv hall)
  · refine ⟨t, .inl rfl, evalExpr_ifTrue_noPoints hC₀ hv, ?_⟩
    by_cases hj : ∃ j, m.get j = true
    · obtain ⟨j, hj⟩ := hj
      exact .inr ⟨fun _ _ _ => .ifTrue j hC₀ hC hv hj, evalExpr_ifTrue_of_get hC h hj⟩
    · have hall : ∀ i, m.get i = false := by simpa using hj
      exact .inl (.ifTrue hC₀ hC hv hall)

/-! ### Expressions -/

variable {O O' : BatchEnv 0} {E E' : BatchEnv n}

/-- The value of an expression without points has the kind that it has at the points. -/
theorem evalExpr_kind {e : Expr} {v₀ : Value (Column 0 Float) (Column 0 Bool)}
    {v : Value (Column n Float) (Column n Bool)} (hs : O.shape = E.shape)
    (hagree : UntakenAgree angles (Together angles O E e))
    (h₀ : evalExpr angles O e = .ok (v₀, O')) (h : evalExpr angles E e = .ok (v, E')) :
    v₀.kind = v.kind := by
  -- parts that both runs evaluate agree by induction, and what no point takes by assumption
  induction e using Expr.induction generalizing O O' E E' v₀ v with
  | number value =>
    simp only [evalExpr_number, Except.ok.injEq, Prod.mk.injEq] at h₀ h
    rw [← h₀.1, ← h.1]
    rfl
  | name name =>
    obtain ⟨hv₀, -⟩ := evalExpr_variable_ok.mp h₀
    obtain ⟨hv, -⟩ := evalExpr_variable_ok.mp h
    obtain ⟨v', hv', hkind⟩ := Env.exists_get?_of_shape_eq hs hv
    cases hv₀.symm.trans hv'
    exact hkind
  | binary op lhs rhs ihL ihR =>
    cases hop : op.connective? with
    | none =>
      obtain ⟨vL₀, O₁, vR₀, hL₀, hR₀, hv₀⟩ := (evalExpr_binary_ok hop).mp h₀
      obtain ⟨vL, E₁, vR, hL, hR, hv⟩ := (evalExpr_binary_ok hop).mp h
      have hs₁ : O₁.shape = E₁.shape := evalExpr_shape_congr hs hL₀ hL
      have hkL := ihL hs (hagree.anti fun _ _ _ => .left) hL₀ hL
      have hkR := ihR hs₁ (hagree.anti fun _ _ _ => .right hop hL₀ hL) hR₀ hR
      obtain ⟨u, hu, hkind⟩ := applyBinary_kind hkL hkR hv
      cases hv₀.symm.trans hu
      exact hkind
    | some k => rw [evalExpr_connective_kind hop h₀, evalExpr_connective_kind hop h]
  | negate operand ih =>
    obtain ⟨x₀, -, rfl⟩ := evalExpr_negate_ok.mp h₀
    obtain ⟨x, -, rfl⟩ := evalExpr_negate_ok.mp h
    rfl
  | call f args ih =>
    obtain ⟨-, xs₀, hxs₀, hv₀⟩ := evalExpr_call_ok.mp h₀
    obtain ⟨-, xs, hxs, hv⟩ := evalExpr_call_ok.mp h
    have hl : xs₀.length = xs.length := by rw [evalArgs_length hxs₀, evalArgs_length hxs]
    obtain ⟨-, -, hcount, -⟩ := applyBuiltinTo_ok.mp hv₀
    obtain ⟨u, hu, hkind⟩ := applyBuiltin_kind hl hv hcount
    cases hv₀.symm.trans hu
    exact hkind
  | conditional c t f ihC ihT ihF =>
    obtain ⟨m₀, O₁, hC₀, -⟩ := evalExpr_conditional_ok.mp h₀
    obtain ⟨m, E₁, hC, -⟩ := evalExpr_conditional_ok.mp h
    have hs₁ : O₁.shape = E₁.shape := evalExpr_shape_congr hs hC₀ hC
    obtain ⟨e, hbranch, he₀, hu | ⟨hsub, w, E₂, he, hk⟩⟩ := evalExpr_branch_noPoints hC₀ hC h
    · exact hagree _ _ _ .self _ _ hu _ _ _ _ (he₀ ▸ h₀) h
    · rw [he₀] at h₀
      rw [← hk]
      rcases hbranch with rfl | rfl
      · exact ihT hs₁ (hagree.anti hsub) h₀ he
      · exact ihF hs₁ (hagree.anti hsub) h₀ he
  | step name op =>
    obtain ⟨x₀, -, -, rfl, -⟩ := evalExpr_step_ok.mp h₀
    obtain ⟨x, -, -, rfl, -⟩ := evalExpr_step_ok.mp h
    rfl
  | misplaced display => simp at h

/-- A failure in a row of arguments is that of an expression that both runs come to. -/
private theorem evalArgs_stranded_of {f : Builtin} {place : Nat} {args : List Expr}
    {xs : List (Column n Float)} {err : EvalError}
    (hargs : ∀ a ∈ args, ∀ (O : BatchEnv 0) (E E' : BatchEnv n) v, O.shape = E.shape →
      UntakenAgree angles (Together angles O E a) → evalExpr angles E a = .ok (v, E') →
      evalExpr angles O a = .error err → Stranded angles (Together angles O E a) err)
    (hs : O.shape = E.shape)
    (hagree : ∀ O₁ E₁ a, InRow angles O E args O₁ E₁ a →
      UntakenAgree angles (Together angles O₁ E₁ a))
    (h : evalArgs angles E f place args = .ok (xs, E'))
    (h₀ : evalArgs angles O f place args = .error err) :
    ∃ O₁ E₁ a, InRow angles O E args O₁ E₁ a ∧ Stranded angles (Together angles O₁ E₁ a) err := by
  induction args generalizing O E place xs with
  | nil =>
    rw [evalArgs] at h₀
    cases h₀
  | cons a rest ih =>
    obtain ⟨x, E₁, xs', ha, hrest, -⟩ := evalArgs_cons_ok.mp h
    rcases evalArgs_cons_error.mp h₀ with ha₀ | ⟨w, O₁, ha₀, ⟨hk, -⟩ | ⟨-, hrest₀⟩⟩
    · exact ⟨O, E, a, .head, hargs a (by simp) O E E₁ _ hs (hagree _ _ _ .head) ha ha₀⟩
    · exact absurd (evalExpr_kind hs (hagree _ _ _ .head) ha₀ ha) hk
    · have hs₁ : O₁.shape = E₁.shape := evalExpr_shape_congr hs ha₀ ha
      obtain ⟨O₂, E₂, a', hin, hstranded⟩ := ih (fun a' h' => hargs a' (by simp [h'])) hs₁
        (fun _ _ _ hin => hagree _ _ _ (.next ha₀ ha hin)) hrest hrest₀
      exact ⟨O₂, E₂, a', .next ha₀ ha hin, hstranded⟩

/-- Where an expression has a value at the points but none without points, octaves cannot be counted
or something fails that no point takes. -/
theorem evalExpr_stranded {e : Expr} {v : Value (Column n Float) (Column n Bool)} {err : EvalError}
    (hs : O.shape = E.shape) (hagree : UntakenAgree angles (Together angles O E e))
    (h : evalExpr angles E e = .ok (v, E')) (h₀ : evalExpr angles O e = .error err) :
    Stranded angles (Together angles O E e) err := by
  induction e using Expr.induction generalizing O E E' v err with
  | number value => simp at h₀
  | name name =>
    obtain ⟨hnone, -⟩ := evalExpr_variable_error.mp h₀
    obtain ⟨hv, -⟩ := evalExpr_variable_ok.mp h
    obtain ⟨v', hv', -⟩ := Env.exists_get?_of_shape_eq hs hv
    cases hnone.symm.trans hv'
  | binary op lhs rhs ihL ihR =>
    have hagreeL : UntakenAgree angles (Together angles O E lhs) := hagree.anti fun _ _ _ => .left
    cases hop : op.connective? with
    | none =>
      obtain ⟨vL, E₁, vR, hL, hR, hv⟩ := (evalExpr_binary_ok hop).mp h
      rcases (evalExpr_binary_error hop).mp h₀ with hL₀ | ⟨vL₀, O₁, hL₀, hw₀⟩
      · exact (ihL hs hagreeL hL hL₀).mono fun _ _ _ => .left
      have hs₁ : O₁.shape = E₁.shape := evalExpr_shape_congr hs hL₀ hL
      have hagreeR : UntakenAgree angles (Together angles O₁ E₁ rhs) :=
        hagree.anti fun _ _ _ => .right hop hL₀ hL
      rcases hw₀ with hR₀ | ⟨vR₀, O₂, hR₀, ha₀⟩
      · exact (ihR hs₁ hagreeR hR hR₀).mono fun _ _ _ => .right hop hL₀ hL
      -- operands of the same kinds do not fail
      · obtain ⟨u, hu, -⟩ := applyBinary_kind (evalExpr_kind hs hagreeL hL₀ hL)
          (evalExpr_kind hs₁ hagreeR hR₀ hR) hv
        cases ha₀.symm.trans hu
    | some k =>
      obtain ⟨b, E₁, hL, -⟩ := (evalExpr_connective_ok hop).mp h
      rcases (evalExpr_connective_error hop).mp h₀ with
        hL₀ | ⟨w, O₁, hL₀, ⟨hk, -⟩ | ⟨b₀, rfl, hv₀, hw₀⟩⟩
      · exact (ihL hs hagreeL hL hL₀).mono fun _ _ _ => .left
      · exact absurd (evalExpr_kind hs hagreeL hL₀ hL) hk
      have hv₀ : (k.runsRight (Column 0 Float) b₀).verdict = .always :=
        hv₀.resolve_right (Column.verdict_noPoints _)
      have hs₁ : O₁.shape = E₁.shape := evalExpr_shape_congr hs hL₀ hL
      by_cases hj : ∃ j, (k.runsRight (Column n Float) b).get j = true
      -- a point needs the right operand, which is a truth value there
      · obtain ⟨j, hj⟩ := hj
        obtain ⟨b', E₂, hR⟩ := evalExpr_right_of_get hop hL h hj
        have hagreeR : UntakenAgree angles (Together angles O₁ E₁ rhs) :=
          hagree.anti fun _ _ _ => .needed j hop hL₀ hL hv₀ hj
        rcases hw₀ with hR₀ | ⟨vR₀, O₂, hR₀, ha₀⟩
        · exact (ihR hs₁ hagreeR hR hR₀).mono fun _ _ _ => .needed j hop hL₀ hL hv₀ hj
        · have hk := evalExpr_kind hs₁ hagreeR hR₀ hR
          cases vR₀ <;> cases hk
          cases ha₀
      -- no point does
      · have hall : ∀ i, (k.runsRight (Column n Float) b).get i = false := by simpa using hj
        have huntaken : Untaken angles O E (.binary op lhs rhs) O₁ rhs :=
          .right hop hL₀ hL hv₀ hall
        rcases hw₀ with hR₀ | ⟨vR₀, O₂, hR₀, ha₀⟩
        · exact .inr ⟨_, _, _, _, _, .self, huntaken, hR₀⟩
        · have hk := hagree _ _ _ .self _ _ huntaken _ _ _ _ hR₀ h
          rw [evalExpr_connective_kind hop h] at hk
          cases vR₀ <;> cases hk
          cases ha₀
  | negate operand ih =>
    have hagree' : UntakenAgree angles (Together angles O E operand) :=
      hagree.anti fun _ _ _ => .negate
    obtain ⟨x, hx, -⟩ := evalExpr_negate_ok.mp h
    rcases evalExpr_negate_error.mp h₀ with hx₀ | ⟨w, O₁, hw, hk, -⟩
    · exact (ih hs hagree' hx hx₀).mono fun _ _ _ => .negate
    · exact absurd (evalExpr_kind hs hagree' hw hx) hk
  | call f args ih =>
    obtain ⟨hacc, xs, hxs, hv⟩ := evalExpr_call_ok.mp h
    rcases evalExpr_call_error.mp h₀ with ⟨hrej, -⟩ | ⟨-, hxs₀ | ⟨xs₀, O₁, c, hxs₀, ha₀, rfl⟩⟩
    · cases hacc.symm.trans hrej
    · obtain ⟨O₁, E₁, a, hin, hstranded⟩ := evalArgs_stranded_of
        (fun a ha O E E' v hs hagree h h₀ => ih a ha hs hagree h h₀) hs
        (fun _ _ _ hin => hagree.anti fun _ _ _ => .argument hin) hxs hxs₀
      exact hstranded.mono fun _ _ _ => .argument hin
    · refine .inl ⟨_, _, _, _, _, _, c, .self, hxs₀, fun hknown => ?_, rfl⟩
      have hl : xs₀.length = xs.length := by rw [evalArgs_length hxs₀, evalArgs_length hxs]
      obtain ⟨u, hu, -⟩ := applyBuiltin_kind hl hv (knowsCount_iff.mpr hknown)
      cases ha₀.symm.trans hu
  | conditional c t f ihC ihT ihF =>
    have hagreeC : UntakenAgree angles (Together angles O E c) :=
      hagree.anti fun _ _ _ => .condition
    obtain ⟨m, E₁, hC, -⟩ := evalExpr_conditional_ok.mp h
    cases hC₀ : evalExpr angles O c with
    | error err₀ =>
      rcases evalExpr_conditional_error.mp h₀ with herr | ⟨w, O₁, hok, -⟩
      · exact (ihC hs hagreeC hC herr).mono fun _ _ _ => .condition
      · cases hC₀.symm.trans hok
    | ok r =>
      obtain ⟨w, O₁⟩ := r
      have hk : w.kind = .boolean := evalExpr_kind hs hagreeC hC₀ hC
      obtain ⟨m₀, rfl⟩ : ∃ m₀, w = .boolean m₀ := by
        cases w <;> cases hk
        exact ⟨_, rfl⟩
      have hs₁ : O₁.shape = E₁.shape := evalExpr_shape_congr hs hC₀ hC
      obtain ⟨e, hbranch, he₀, hu | ⟨hsub, w, E₂, he, -⟩⟩ := evalExpr_branch_noPoints hC₀ hC h
      · exact .inr ⟨_, _, _, _, _, .self, hu, he₀ ▸ h₀⟩
      · rw [he₀] at h₀
        rcases hbranch with rfl | rfl
        · exact (ihT hs₁ (hagree.anti hsub) he h₀).mono hsub
        · exact (ihF hs₁ (hagree.anti hsub) he h₀).mono hsub
  | step name op =>
    obtain ⟨x, hx, hwritable, -⟩ := evalExpr_step_ok.mp h
    obtain ⟨v₀, hv₀, hk₀⟩ := Env.exists_get?_of_shape_eq hs hx
    rcases evalExpr_step_error.mp h₀ with ⟨hnone, -⟩ | ⟨w, hw, hk, -⟩ | ⟨x₀, -, hread, -⟩
    · cases hnone.symm.trans hv₀
    · cases hw.symm.trans hv₀
      exact absurd hk₀ hk
    · exact absurd hread hwritable
  | misplaced display => simp at h

/-! ### What an evaluation without points comes to -/

/-- Arguments that have numbers have values. -/
theorem InRow.evaluates_args {f : Builtin} {place : Nat} {args : List Expr} {e : Expr}
    (hin : InRow angles O E args O' E' e)
    (h : ∃ r, evalArgs angles O f place args = .ok r) : ∃ r, evalExpr angles O' e = .ok r := by
  induction hin generalizing place with
  | head =>
    obtain ⟨⟨xs, O₁⟩, h⟩ := h
    obtain ⟨x, O₂, -, he, -⟩ := evalArgs_cons_ok.mp h
    exact ⟨_, he⟩
  | next he₀ _ _ ih =>
    obtain ⟨⟨xs, O₁⟩, h⟩ := h
    obtain ⟨x, O₂, rest, he, hrest, -⟩ := evalArgs_cons_ok.mp h
    cases he₀.symm.trans he
    exact ih ⟨_, hrest⟩

theorem InRow.evaluates_all {es : List Expr} {e : Expr} (hin : InRow angles O E es O' E' e)
    (h : ∃ r, evalAll angles O es = .ok r) : ∃ r, evalExpr angles O' e = .ok r := by
  induction hin with
  | head =>
    obtain ⟨⟨vs, O₁⟩, h⟩ := h
    obtain ⟨v, O₂, -, he, -⟩ := evalAll_cons_ok.mp h
    exact ⟨_, he⟩
  | next he₀ _ _ ih =>
    obtain ⟨⟨vs, O₁⟩, h⟩ := h
    obtain ⟨v, O₂, rest, he, hrest, -⟩ := evalAll_cons_ok.mp h
    cases he₀.symm.trans he
    exact ih ⟨_, hrest⟩

/-- An expression that has a value without points has one wherever its evaluation comes. -/
theorem Together.evaluates {e e' : Expr} (ht : Together angles O E e O' E' e')
    (h : ∃ r, evalExpr angles O e = .ok r) : ∃ r, evalExpr angles O' e' = .ok r := by
  -- the run without points comes to the part on its way to the value of the whole
  induction ht with
  | self => exact h
  | negate _ ih =>
    obtain ⟨⟨v, O₁⟩, h⟩ := h
    obtain ⟨x, hx, -⟩ := evalExpr_negate_ok.mp h
    exact ih ⟨_, hx⟩
  | argument hin _ ih =>
    obtain ⟨⟨v, O₁⟩, h⟩ := h
    obtain ⟨-, xs, hxs, -⟩ := evalExpr_call_ok.mp h
    exact ih (hin.evaluates_args ⟨_, hxs⟩)
  | @left O O' E E' op lhs rhs e' _ ih =>
    obtain ⟨⟨v, O₁⟩, h⟩ := h
    cases hop : op.connective? with
    | none =>
      obtain ⟨vL, O₂, vR, hL, -, -⟩ := (evalExpr_binary_ok hop).mp h
      exact ih ⟨_, hL⟩
    | some k =>
      obtain ⟨b, O₂, hL, -⟩ := (evalExpr_connective_ok hop).mp h
      exact ih ⟨_, hL⟩
  | right hop hL₀ _ _ ih =>
    obtain ⟨⟨v, O₁⟩, h⟩ := h
    obtain ⟨vL, O₂, vR, hL, hR, -⟩ := (evalExpr_binary_ok hop).mp h
    cases hL₀.symm.trans hL
    exact ih ⟨_, hR⟩
  | needed _ hop hL₀ _ hv₀ _ _ ih => exact ih (evalExpr_right_noPoints hop hL₀ hv₀ h)
  | condition _ ih =>
    obtain ⟨⟨v, O₁⟩, h⟩ := h
    obtain ⟨m₀, O₂, hC, -⟩ := evalExpr_conditional_ok.mp h
    exact ih ⟨_, hC⟩
  | ifTrue _ hC₀ _ hv₀ _ _ ih => exact ih (evalExpr_ifTrue_noPoints hC₀ hv₀ ▸ h)
  | ifFalse _ hC₀ _ hv₀ _ _ ih => exact ih (evalExpr_ifFalse_noPoints hC₀ hv₀ ▸ h)

/-- What no point takes has a value if the whole has one. -/
theorem Untaken.evaluates {e e' : Expr} (hu : Untaken angles O E e O' e')
    (h : ∃ r, evalExpr angles O e = .ok r) : ∃ r, evalExpr angles O' e' = .ok r := by
  cases hu with
  | right hop hL₀ _ hv₀ _ => exact evalExpr_right_noPoints hop hL₀ hv₀ h
  | ifTrue hC₀ _ hv₀ _ => exact evalExpr_ifTrue_noPoints hC₀ hv₀ ▸ h
  | ifFalse hC₀ _ hv₀ _ => exact evalExpr_ifFalse_noPoints hC₀ hv₀ ▸ h

theorem InRow.mem {es : List Expr} {e : Expr} (hin : InRow angles O E es O' E' e) : e ∈ es := by
  induction hin with
  | head => exact List.mem_cons_self
  | next _ _ _ ih => exact List.mem_cons_of_mem _ ih

/-- Only nodes of an expression are come to. -/
theorem Together.mem_nodes {e e' : Expr} (ht : Together angles O E e O' E' e') : e' ∈ e.nodes := by
  induction ht with
  | self => exact Expr.mem_nodes_self _
  | negate _ ih => exact List.mem_cons_of_mem _ ih
  | argument hin _ ih => exact List.mem_cons_of_mem _ (mem_nodesAll.mpr ⟨_, hin.mem, ih⟩)
  | left _ ih => exact List.mem_cons_of_mem _ (List.mem_append_left _ ih)
  | right _ _ _ _ ih => exact List.mem_cons_of_mem _ (List.mem_append_right _ ih)
  | needed _ _ _ _ _ _ _ ih => exact List.mem_cons_of_mem _ (List.mem_append_right _ ih)
  | condition _ ih =>
    exact List.mem_cons_of_mem _ (List.mem_append_left _ (List.mem_append_left _ ih))
  | ifTrue _ _ _ _ _ _ ih =>
    exact List.mem_cons_of_mem _ (List.mem_append_left _ (List.mem_append_right _ ih))
  | ifFalse _ _ _ _ _ _ ih => exact List.mem_cons_of_mem _ (List.mem_append_right _ ih)

/-- A node that leaves something untaken is a connective or a conditional. -/
def Expr.MayBranch : Expr → Prop
  | .binary op _ _ => op.connective?.isSome
  | .conditional _ _ _ => True
  | _ => False

theorem Untaken.mayBranch {e e' : Expr} (hu : Untaken angles O E e O' e') : e.MayBranch := by
  cases hu with
  | right hop => simp [Expr.MayBranch, hop]
  | ifTrue => trivial
  | ifFalse => trivial

/-! ### Expressions in a row -/

section Rows

variable {es : List Expr} {vs : List (Value (Column n Float) (Column n Bool))}
  (hs : O.shape = E.shape)
  (hagree : ∀ O₁ E₁ e, InRow angles O E es O₁ E₁ e → UntakenAgree angles (Together angles O₁ E₁ e))
  (h : evalAll angles E es = .ok (vs, E'))
include hs hagree h

theorem evalAll_kinds {vs₀ : List (Value (Column 0 Float) (Column 0 Bool))}
    (h₀ : evalAll angles O es = .ok (vs₀, O')) : vs₀.map Value.kind = vs.map Value.kind := by
  induction es generalizing O E vs₀ vs with
  | nil =>
    obtain ⟨rfl, -⟩ := evalAll_nil_ok.mp h₀
    obtain ⟨rfl, -⟩ := evalAll_nil_ok.mp h
    rfl
  | cons e es ih =>
    obtain ⟨w₀, O₁, rest₀, he₀, hes₀, rfl⟩ := evalAll_cons_ok.mp h₀
    obtain ⟨w, E₁, rest, he, hes, rfl⟩ := evalAll_cons_ok.mp h
    have hs₁ : O₁.shape = E₁.shape := evalExpr_shape_congr hs he₀ he
    rw [List.map_cons, List.map_cons, evalExpr_kind hs (hagree _ _ _ .head) he₀ he,
      ih hs₁ (fun _ _ _ hin => hagree _ _ _ (.next he₀ he hin)) hes hes₀]

theorem evalAll_stranded {err : EvalError} (h₀ : evalAll angles O es = .error err) :
    ∃ O₁ E₁ e, InRow angles O E es O₁ E₁ e ∧ Stranded angles (Together angles O₁ E₁ e) err := by
  induction es generalizing O E vs with
  | nil =>
    rw [evalAll] at h₀
    cases h₀
  | cons e es ih =>
    obtain ⟨w, E₁, rest, he, hes, -⟩ := evalAll_cons_ok.mp h
    rcases evalAll_cons_error.mp h₀ with he₀ | ⟨w₀, O₁, he₀, hes₀⟩
    · exact ⟨O, E, e, .head, evalExpr_stranded hs (hagree _ _ _ .head) he he₀⟩
    · have hs₁ : O₁.shape = E₁.shape := evalExpr_shape_congr hs he₀ he
      obtain ⟨O₂, E₂, e', hin, hstranded⟩ :=
        ih hs₁ (fun _ _ _ hin => hagree _ _ _ (.next he₀ he hin)) hes hes₀
      exact ⟨O₂, E₂, e', .next he₀ he hin, hstranded⟩

end Rows

/-! ### Statements -/

/-- Running the statement, from the given states, both the run at no points and the one at `n`
points come to the expression, which a point takes. -/
inductive RunsTo (angles : Angles) :
    BatchState 0 → BatchState n → Stmt → BatchEnv 0 → BatchEnv n → Expr → Prop
  | result {S₀ S value O E e} :
    Together angles S₀.env S.env value O E e → RunsTo angles S₀ S (.result value) O E e
  | assign {S₀ S name value O E e} :
    Together angles S₀.env S.env value O E e → RunsTo angles S₀ S (.assign name value) O E e
  | unpack {S₀ S names value O E e} :
    Together angles S₀.env S.env value O E e → RunsTo angles S₀ S (.unpack names value) O E e
  | assignEach {S₀ S names values O₁ E₁ e₁ O E e} :
    InRow angles S₀.env S.env values O₁ E₁ e₁ → Together angles O₁ E₁ e₁ O E e →
    RunsTo angles S₀ S (.assignEach names values) O E e
  | first {S₀ S first rest O E e} :
    RunsTo angles S₀ S first O E e → RunsTo angles S₀ S (.block (first :: rest)) O E e
  | later {S₀ S₁ S S' first rest O E e} :
    execute angles S₀ first = .ok S₁ → execute angles S first = .ok S' →
    RunsTo angles S₁ S' (.block rest) O E e → RunsTo angles S₀ S (.block (first :: rest)) O E e

/-- The states have the same variables, of the same kinds, and last values of one kind. -/
def SameKinds (S₀ : BatchState 0) (S : BatchState n) : Prop :=
  S₀.env.shape = S.env.shape ∧ S₀.last.map Value.kind = S.last.map Value.kind

variable {S₀ S₀' : BatchState 0} {S S' : BatchState n}

/-- The bindings of an unpacked vector have one shape. -/
theorem shape_unpacked {names : List String} {axes₀ : List (Column 0 Float)}
    {axes : List (Column n Float)} (hl₀ : axes₀.length = names.length)
    (hl : axes.length = names.length) :
    Env.shape (names.zip (axes₀.map (.scalar : _ → Value (Column 0 Float) (Column 0 Bool)))) =
      Env.shape (names.zip (axes.map (.scalar : _ → Value (Column n Float) (Column n Bool)))) := by
  refine Env.shape_zip ?_
  simp only [List.map_map, Function.comp_def, Value.kind, List.map_const', hl₀, hl]

/-- A statement that runs to its end without points leaves what it leaves at the points, up to the
values. -/
theorem execute_sameKinds {t : Stmt} (hs : SameKinds S₀ S)
    (hagree : UntakenAgree angles (RunsTo angles S₀ S t)) (h₀ : execute angles S₀ t = .ok S₀')
    (h : execute angles S t = .ok S') : SameKinds S₀' S' := by
  -- both runs bind the same names in the same order, to values of the same kinds
  induction t using Stmt.induction generalizing S₀ S₀' S S' with
  | assign name value =>
    obtain ⟨w₀, O₁, hw₀, -, rfl⟩ := execute_assign_ok.mp h₀
    obtain ⟨w, E₁, hw, -, rfl⟩ := execute_assign_ok.mp h
    have hk := evalExpr_kind hs.1 (hagree.anti fun _ _ _ => .assign) hw₀ hw
    have hs₁ : O₁.shape = E₁.shape := evalExpr_shape_congr hs.1 hw₀ hw
    exact ⟨Env.shape_set_congr hs₁ hk name, congrArg some hk⟩
  | unpack names value =>
    obtain ⟨w₀, O₁, axes₀, O₂, hw₀, -, hl₀, ha₀, rfl⟩ := execute_unpack_ok.mp h₀
    obtain ⟨w, E₁, axes, E₂, hw, -, hl, ha, rfl⟩ := execute_unpack_ok.mp h
    have hk := evalExpr_kind hs.1 (hagree.anti fun _ _ _ => .unpack) hw₀ hw
    have hs₁ : O₁.shape = E₁.shape := evalExpr_shape_congr hs.1 hw₀ hw
    obtain ⟨O₃, ha₃, hshape⟩ := assignAll_shape hs₁ (shape_unpacked hl₀ hl) ha
    cases ha₀.symm.trans ha₃
    exact ⟨hshape, congrArg some hk⟩
  | assignEach names values =>
    obtain ⟨vs₀, O₁, O₂, hvs₀, ha₀, rfl⟩ := execute_assignEach_ok.mp h₀
    obtain ⟨vs, E₁, E₂, hvs, ha, rfl⟩ := execute_assignEach_ok.mp h
    have hks := evalAll_kinds hs.1
      (fun _ _ _ hin => hagree.anti fun _ _ _ => .assignEach hin) hvs hvs₀
    have hs₁ : O₁.shape = E₁.shape := evalAll_shape_congr hs.1 hvs₀ hvs
    obtain ⟨O₃, ha₃, hshape⟩ := assignAll_shape hs₁ (Env.shape_zip hks) ha
    cases ha₀.symm.trans ha₃
    refine ⟨hshape, ?_⟩
    have hlast := congrArg List.getLast? hks
    rw [List.getLast?_map, List.getLast?_map] at hlast
    rw [Option.map_or, Option.map_or, hlast, hs.2]
  | block statements ih =>
    rw [execute_block] at h₀ h
    induction statements generalizing S₀ S with
    | nil =>
      rw [executeAll_nil] at h₀ h
      cases h₀
      cases h
      exact hs
    | cons first rest ihRest =>
      rw [executeAll_cons] at h₀ h
      obtain ⟨S₁, hf₀, hr₀⟩ := bind_eq_ok.mp h₀
      obtain ⟨S₂, hf, hr⟩ := bind_eq_ok.mp h
      exact ihRest (fun t ht => ih t (by simp [ht]))
        (ih first (by simp) hs (hagree.anti fun _ _ _ => .first) hf₀ hf)
        (hagree.anti fun _ _ _ => .later hf₀ hf) hr₀ hr
  | result value =>
    obtain ⟨w₀, O₁, hw₀, rfl⟩ := execute_result_ok.mp h₀
    obtain ⟨w, E₁, hw, rfl⟩ := execute_result_ok.mp h
    have hk := evalExpr_kind hs.1 (hagree.anti fun _ _ _ => .result) hw₀ hw
    have hs₁ : O₁.shape = E₁.shape := evalExpr_shape_congr hs.1 hw₀ hw
    exact ⟨hs₁, congrArg some hk⟩
  | empty =>
    rw [execute_empty] at h₀ h
    cases h₀
    cases h
    exact hs
  | misplaced display => simp at h

/-- Where a statement runs to its end at the points but not without points, octaves cannot be
counted or something fails that no point takes. -/
theorem execute_stranded {t : Stmt} {err : EvalError} (hs : SameKinds S₀ S)
    (hagree : UntakenAgree angles (RunsTo angles S₀ S t)) (h : execute angles S t = .ok S')
    (h₀ : execute angles S₀ t = .error err) : Stranded angles (RunsTo angles S₀ S t) err := by
  -- an assignment takes the same kinds of values in both runs, so an expression has to fail
  induction t using Stmt.induction generalizing S₀ S S' with
  | assign name value =>
    obtain ⟨w, E₁, hw, hwritable, -⟩ := execute_assign_ok.mp h
    rcases execute_assign_error.mp h₀ with hw₀ | ⟨w₀, O₁, -, ha₀⟩
    · exact (evalExpr_stranded hs.1 (hagree.anti fun _ _ _ => .assign) hw hw₀).mono
        fun _ _ _ => .assign
    · exact absurd (assign_error.mp ha₀).1 hwritable
  | unpack names value =>
    obtain ⟨w, E₁, axes, E₂, hw, haxes, hl, ha, -⟩ := execute_unpack_ok.mp h
    have hagree' : UntakenAgree angles (Together angles S₀.env S.env value) :=
      hagree.anti fun _ _ _ => .unpack
    rcases execute_unpack_error.mp h₀ with
      hw₀ | ⟨w₀, O₁, hw₀, ⟨hne, -⟩ | ⟨axes₀, -, hl₀, ha₀⟩⟩
    · exact (evalExpr_stranded hs.1 hagree' hw hw₀).mono fun _ _ _ => .unpack
    · refine absurd ?_ hne
      rw [Value.axes?_length (evalExpr_kind hs.1 hagree' hw₀ hw), haxes, Option.map_some, hl]
    · have hs₁ : O₁.shape = E₁.shape := evalExpr_shape_congr hs.1 hw₀ hw
      obtain ⟨O₃, ha₃, -⟩ := assignAll_shape hs₁ (shape_unpacked hl₀ hl) ha
      cases ha₀.symm.trans ha₃
  | assignEach names values =>
    obtain ⟨vs, E₁, E₂, hvs, ha, -⟩ := execute_assignEach_ok.mp h
    have hagree' : ∀ O₁ E₁ e, InRow angles S₀.env S.env values O₁ E₁ e →
        UntakenAgree angles (Together angles O₁ E₁ e) :=
      fun _ _ _ hin => hagree.anti fun _ _ _ => .assignEach hin
    rcases execute_assignEach_error.mp h₀ with hvs₀ | ⟨vs₀, O₁, hvs₀, ha₀⟩
    · obtain ⟨O₂, E₃, e, hin, hstranded⟩ := evalAll_stranded hs.1 hagree' hvs hvs₀
      exact hstranded.mono fun _ _ _ => .assignEach hin
    · have hks := evalAll_kinds hs.1 hagree' hvs hvs₀
      have hs₁ : O₁.shape = E₁.shape := evalAll_shape_congr hs.1 hvs₀ hvs
      obtain ⟨O₃, ha₃, -⟩ := assignAll_shape hs₁ (Env.shape_zip hks) ha
      cases ha₀.symm.trans ha₃
  | block statements ih =>
    rw [execute_block] at h h₀
    induction statements generalizing S₀ S with
    | nil => simp at h₀
    | cons first rest ihRest =>
      rw [executeAll_cons] at h h₀
      obtain ⟨S₂, hf, hr⟩ := bind_eq_ok.mp h
      have hagree' : UntakenAgree angles (RunsTo angles S₀ S first) :=
        hagree.anti fun _ _ _ => .first
      rcases bind_eq_error.mp h₀ with hf₀ | ⟨S₁, hf₀, hr₀⟩
      · exact (ih first (by simp) hs hagree' hf hf₀).mono fun _ _ _ => .first
      · exact (ihRest (fun t ht => ih t (by simp [ht])) (execute_sameKinds hs hagree' hf₀ hf)
          (hagree.anti fun _ _ _ => .later hf₀ hf) hr hr₀).mono fun _ _ _ => .later hf₀ hf
  | result value =>
    obtain ⟨w, E₁, hw, -⟩ := execute_result_ok.mp h
    exact (evalExpr_stranded hs.1 (hagree.anti fun _ _ _ => .result) hw
      (execute_result_error.mp h₀)).mono fun _ _ _ => .result
  | empty => simp at h₀
  | misplaced display => simp at h

/-- Whatever expression a statement comes to has a value without points, if it runs to its end. -/
theorem RunsTo.evaluates {t : Stmt} {e : Expr} (hr : RunsTo angles S₀ S t O E e)
    (h : ∃ S₀', execute angles S₀ t = .ok S₀') : ∃ r, evalExpr angles O e = .ok r := by
  -- the run without points comes to the expression on its way to the end
  induction hr with
  | result ht =>
    obtain ⟨S₀', h⟩ := h
    obtain ⟨w, O₁, hw, -⟩ := execute_result_ok.mp h
    exact ht.evaluates ⟨_, hw⟩
  | assign ht =>
    obtain ⟨S₀', h⟩ := h
    obtain ⟨w, O₁, hw, -⟩ := execute_assign_ok.mp h
    exact ht.evaluates ⟨_, hw⟩
  | unpack ht =>
    obtain ⟨S₀', h⟩ := h
    obtain ⟨w, O₁, axes, O₂, hw, -⟩ := execute_unpack_ok.mp h
    exact ht.evaluates ⟨_, hw⟩
  | assignEach hin ht =>
    obtain ⟨S₀', h⟩ := h
    obtain ⟨vs, O₁, O₂, hvs, -⟩ := execute_assignEach_ok.mp h
    exact ht.evaluates (hin.evaluates_all ⟨_, hvs⟩)
  | first _ ih =>
    obtain ⟨S₀', h⟩ := h
    rw [execute_block, executeAll_cons] at h
    obtain ⟨S₁, hf, -⟩ := bind_eq_ok.mp h
    exact ih ⟨S₁, hf⟩
  | later hf₀ _ _ ih =>
    obtain ⟨S₀', h⟩ := h
    rw [execute_block, executeAll_cons] at h
    obtain ⟨S₁, hf, hr⟩ := bind_eq_ok.mp h
    cases hf₀.symm.trans hf
    exact ih ⟨S₀', by rw [execute_block, hr]⟩

/-- Only nodes of a statement are come to. -/
theorem RunsTo.mem_nodes {t : Stmt} {e : Expr} (hr : RunsTo angles S₀ S t O E e) : e ∈ t.nodes := by
  induction hr with
  | result ht => exact ht.mem_nodes
  | assign ht => exact ht.mem_nodes
  | unpack ht => exact ht.mem_nodes
  | assignEach hin ht => exact mem_nodesAll.mpr ⟨_, hin.mem, ht.mem_nodes⟩
  | first _ ih => exact List.mem_append_left _ ih
  | later _ _ _ ih => exact List.mem_append_right _ ih

/-- Without connectives and conditionals nothing is left untaken. -/
theorem untaken_of_nodes {t : Stmt} (h : ∀ e ∈ t.nodes, ¬ e.MayBranch) :
    UntakenRun angles (RunsTo angles S₀ S t) ∧ UntakenAgree angles (RunsTo angles S₀ S t) :=
  ⟨fun _ _ e hr _ _ hu => absurd hu.mayBranch (h e hr.mem_nodes),
    fun _ _ e hr _ _ hu => absurd hu.mayBranch (h e hr.mem_nodes)⟩

/-! ### Programs -/

/-- The expressions that a program comes to both at no points and, taken by a point, at the given
points. -/
def Reached (angles : Angles) (program : Stmt) (points : List Point) :
    BatchEnv 0 → BatchEnv points.length → Expr → Prop :=
  RunsTo angles
    (initialState angles (columns []).1 (columns []).2.1 (columns []).2.2)
    (initialState angles (columns points).1 (columns points).2.1 (columns points).2.2) program

theorem initialState_sameKinds (angles : Angles) (points : List Point) :
    SameKinds (initialState angles (columns []).1 (columns []).2.1 (columns []).2.2)
      (initialState angles (columns points).1 (columns points).2.1 (columns points).2.2) :=
  ⟨rfl, rfl⟩

/-- What becomes at no points of a program that has distances at some. It can only have the empty
list of distances, and only if octaves can be counted and what no point takes has a value. If that
has the kind of what the points get, then there is no other condition, and every failure is for
octaves that cannot be counted, or is one of what no point takes. -/
theorem evaluateMany_nil {program : Stmt} {points : List Point} {distances : List Float}
    (h : evaluateMany angles program points = .ok distances) :
    (∀ none, evaluateMany angles program [] = .ok none →
        none = [] ∧ CountsKnown angles (Reached angles program points) ∧
          UntakenRun angles (Reached angles program points)) ∧
      (UntakenAgree angles (Reached angles program points) →
        (evaluateMany angles program [] = .ok [] ↔
            CountsKnown angles (Reached angles program points) ∧
              UntakenRun angles (Reached angles program points)) ∧
          ∀ err, evaluateMany angles program [] = .error err →
            Stranded angles (Reached angles program points) err) := by
  obtain ⟨S, x, hS, hx, -⟩ := evaluateMany_ok.mp h
  have hstart := initialState_sameKinds angles points
  have hstranded (hagree : UntakenAgree angles (Reached angles program points)) (err : EvalError)
      (h₀ : evaluateMany angles program [] = .error err) :
      Stranded angles (Reached angles program points) err := by
    rcases evaluateMany_error.mp h₀ with hS₀ | ⟨S₀, hS₀, hresult⟩
    · exact execute_stranded hstart hagree hS hS₀
    -- the last value is a number at the points, so it is one without points
    · have hlast := (execute_sameKinds hstart hagree hS₀ hS).2
      rw [hx, Option.map_some] at hlast
      obtain ⟨v, hv, hk⟩ := Option.map_eq_some_iff.mp hlast
      rw [State.result, hv] at hresult
      cases v <;> cases hk
      cases hresult
  have hneeds (none : List Float) (h₀ : evaluateMany angles program [] = .ok none) :
      none = [] ∧ CountsKnown angles (Reached angles program points) ∧
        UntakenRun angles (Reached angles program points) := by
    obtain ⟨S₀, x₀, hS₀, -, rfl⟩ := evaluateMany_ok.mp h₀
    refine ⟨rfl, fun O E f args hr xs O' hxs => ?_, fun O E e hr O₁ e₁ hu => ?_⟩
    · obtain ⟨⟨v, O''⟩, hcall⟩ := hr.evaluates ⟨S₀, hS₀⟩
      obtain ⟨-, xs', hxs', hv⟩ := evalExpr_call_ok.mp hcall
      cases hxs.symm.trans hxs'
      obtain ⟨-, -, hcount, -⟩ := applyBuiltinTo_ok.mp hv
      exact knowsCount_iff.mp hcount
    · exact hu.evaluates (hr.evaluates ⟨S₀, hS₀⟩)
  refine ⟨hneeds, fun hagree => ⟨⟨fun h₀ => (hneeds [] h₀).2, ?_⟩, hstranded hagree⟩⟩
  rintro ⟨hcounts, huntaken⟩
  cases h₀ : evaluateMany angles program [] with
  | error err => exact absurd (hstranded hagree err h₀) (not_stranded hcounts huntaken)
  | ok none => rw [(hneeds none h₀).1]

/-- The program `x > 0 ? q : 1`. -/
def untakenUnbound : Stmt :=
  .result (.conditional (.binary .greater (.variable "x") (.number 0)) (.variable "q") (.number 1))

/-- The program `nz(x, y, z, 1, 0, x)`. -/
def variedNoise : Stmt :=
  .result (.call .valueNoise
    [.variable "x", .variable "y", .variable "z", .number 1, .number 0, .variable "x"])

/-- Both programs have a distance at a point and none without points: the one for a branch that the
point does not take, the other for a count of octaves that depends on the point, and for nothing
else. -/
theorem untakenUnbound_variedNoise_nil :
    evaluateMany {} untakenUnbound [⟨-1, 0, 0⟩] = .ok [1] ∧
      evaluateMany {} untakenUnbound [] = .error (.unbound "q") ∧
      ¬ (UntakenAgree {} (Reached {} untakenUnbound [⟨-1, 0, 0⟩]) ∧
        CountsKnown {} (Reached {} untakenUnbound [⟨-1, 0, 0⟩]) ∧
        UntakenRun {} (Reached {} untakenUnbound [⟨-1, 0, 0⟩])) ∧
      (∃ distances, evaluateMany {} variedNoise [⟨0, 0, 0⟩] = .ok distances) ∧
      evaluateMany {} variedNoise [] = .error (.call .noOctaves) ∧
      UntakenAgree {} (Reached {} variedNoise [⟨0, 0, 0⟩]) ∧
      UntakenRun {} (Reached {} variedNoise [⟨0, 0, 0⟩]) ∧
      ¬ CountsKnown {} (Reached {} variedNoise [⟨0, 0, 0⟩]) := by
  have hbranch : evaluateMany {} untakenUnbound [⟨-1, 0, 0⟩] = .ok [1] := by decide
  have hunbound : evaluateMany {} untakenUnbound [] = .error (.unbound "q") := by decide
  obtain ⟨distances, hnoise⟩ :
      ∃ distances, evaluateMany {} variedNoise [⟨0, 0, 0⟩] = .ok distances := ⟨_, rfl⟩
  have huncounted : evaluateMany {} variedNoise [] = .error (.call .noOctaves) := by decide
  -- there is no branch in a call, so only its octaves can be in the way
  obtain ⟨hruns, hagrees⟩ :
      UntakenRun {} (Reached {} variedNoise [⟨0, 0, 0⟩]) ∧
        UntakenAgree {} (Reached {} variedNoise [⟨0, 0, 0⟩]) :=
    untaken_of_nodes (by simp [variedNoise, Stmt.nodes, Expr.nodes, nodesAll, Expr.MayBranch])
  refine ⟨hbranch, hunbound, ?_, ⟨distances, hnoise⟩, huncounted, hagrees, hruns, ?_⟩
  · rintro ⟨hagree, hconditions⟩
    have h := ((evaluateMany_nil hbranch).2 hagree).1.mpr hconditions
    cases hunbound.symm.trans h
  · intro hcounts
    have h := ((evaluateMany_nil hnoise).2 hagrees).1.mpr ⟨hcounts, hruns⟩
    cases huncounted.symm.trans h

end FieldLang
