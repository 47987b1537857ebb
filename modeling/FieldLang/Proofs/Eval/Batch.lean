/-
A run at several points is a run at each of them.

* `evalExpr_atPoint`, `evalAll_atPoint` : an expression with a value at all points at once has
  it at each of them, and leaves the same environment there;
* `execute_atPoint` : so does a statement;
* `evaluateMany_sound` : so does a program, state by state.

Design notes: both branches of a condition that holds at some points only run at all points.
What an environment holds at a point after the merge is what the branch taken there left, since
the branches keep the names and kinds of variables; what the other branch did there is lost.
-/
import FieldLang.Proofs.Eval.Moments

namespace FieldLang

variable {n : Nat} {angles : Angles} {E E' : Env (Column n Float) (Column n Bool)}

/-- The verdict of a condition at a single point. -/
@[simp] theorem verdict_single (b : Bool) :
    Carrier.verdict Float b = if b then .always else .never := rfl

section

variable {mask : Column n Bool}

/-- A condition that holds everywhere holds at each point. -/
theorem get_of_always (h : Carrier.verdict (Column n Float) mask = .always) (i : Fin n) :
    mask.get i = true := by
  have hm : mask.verdict = .always := h
  rcases mask.verdict_spec (fun e => (e ▸ i).elim0) with ⟨-, h⟩ | ⟨hv, -⟩ | ⟨hv, -⟩
  · exact h i
  · cases hm.symm.trans hv
  · cases hm.symm.trans hv

/-- A condition that holds nowhere does not hold at any point. -/
theorem get_of_never (h : Carrier.verdict (Column n Float) mask = .never) (i : Fin n) :
    mask.get i = false := by
  have hm : mask.verdict = .never := h
  rcases mask.verdict_spec (fun e => (e ▸ i).elim0) with ⟨hv, -⟩ | ⟨-, h⟩ | ⟨hv, -⟩
  · cases hm.symm.trans hv
  · exact h i
  · cases hm.symm.trans hv

/-- No verdict is for want of points where there is one. -/
theorem verdict_ne_vacuous (i : Fin n) : Carrier.verdict (Column n Float) mask ≠ .vacuous := by
  intro h
  have hm : mask.verdict = .vacuous := h
  rcases mask.verdict_spec (fun e => (e ▸ i).elim0) with ⟨hv, -⟩ | ⟨hv, -⟩ | ⟨hv, -⟩
  · cases hm.symm.trans hv
  · cases hm.symm.trans hv
  · cases hm.symm.trans hv

end

/-- A connective keeps a left operand that settles the result. -/
theorem Connective.apply_of_settled {k : Connective} {b : Bool} (h : k.runsRight Float b = false)
    (b' : Bool) : k.apply b b' = b := by
  cases k with
  | and =>
    have hb : b = false := h
    rw [hb]
    rfl
  | or =>
    have hb : (!b) = false := h
    cases b with
    | true => rfl
    | false => cases hb

/-! ### Expressions -/

private theorem evalArgs_atPoint_of {f : Builtin} {place : Nat} {args : List Expr}
    {xs : List (Column n Float)} {i : Fin n}
    (hargs : ∀ e ∈ args, ∀ (E E' : Env (Column n Float) (Column n Bool)) V, E.Distinct →
      evalExpr angles E e = .ok (V, E') →
      evalExpr angles (E.atPoint i) e = .ok (V.atPoint i, E'.atPoint i))
    (hd : E.Distinct) (h : evalArgs angles E f place args = .ok (xs, E')) :
    evalArgs angles (E.atPoint i) f place args = .ok (xs.map (·.get i), E'.atPoint i) := by
  induction args generalizing E place xs with
  | nil =>
    obtain ⟨rfl, rfl⟩ := evalArgs_nil_ok.mp h
    exact evalArgs_nil_ok.mpr ⟨rfl, rfl⟩
  | cons e es ih =>
    obtain ⟨x, E₁, rest, he, hes, rfl⟩ := evalArgs_cons_ok.mp h
    have hd₁ : E₁.Distinct := hd.of_shape_eq (evalExpr_shape he)
    exact evalArgs_cons_ok.mpr ⟨_, _, _, hargs e (by simp) _ _ _ hd he,
      ih (fun e' h' => hargs e' (by simp [h'])) hd₁ hes, rfl⟩

/-- The value of an expression at all points, and the environment that it leaves, are at each
point those of the expression at the point. -/
theorem evalExpr_atPoint {e : Expr} {V : Value (Column n Float) (Column n Bool)}
    (hd : E.Distinct) (h : evalExpr angles E e = .ok (V, E')) (i : Fin n) :
    evalExpr angles (E.atPoint i) e = .ok (V.atPoint i, E'.atPoint i) := by
  induction e using Expr.induction generalizing E E' V with
  | number value =>
    simp only [evalExpr_number, Except.ok.injEq, Prod.mk.injEq] at h ⊢
    obtain ⟨rfl, rfl⟩ := h
    exact ⟨rfl, rfl⟩
  | name name =>
    obtain ⟨hv, rfl⟩ := evalExpr_variable_ok.mp h
    exact evalExpr_variable_ok.mpr ⟨by rw [Env.get?_atPoint, hv]; rfl, rfl⟩
  | binary op lhs rhs ihL ihR =>
    cases hop : op.connective? with
    | none =>
      obtain ⟨vL, EL, vR, hL, hR, hv⟩ := (evalExpr_binary_ok hop).mp h
      have hdL : EL.Distinct := hd.of_shape_eq (evalExpr_shape hL)
      refine (evalExpr_binary_ok hop).mpr ⟨_, _, _, ihL hd hL, ihR hdL hR, ?_⟩
      rw [applyBinary_atPoint, hv]
      rfl
    | some k =>
      obtain ⟨b, EL, hL, hw⟩ := (evalExpr_connective_ok hop).mp h
      have hdL : EL.Distinct := hd.of_shape_eq (evalExpr_shape hL)
      refine (evalExpr_connective_ok hop).mpr ⟨_, _, ihL hd hL, ?_⟩
      rw [← Connective.get_runsRight]
      -- the right operand runs for no point, for all, or for some
      rcases hw with ⟨hv | hv, rfl, rfl⟩ | ⟨hv, vR, hR, hc⟩ | ⟨hv, vR, ER, hR, hc, rfl⟩
      · exact .inl ⟨.inl (by simp [get_of_never hv i]), rfl, rfl⟩
      · exact absurd hv (verdict_ne_vacuous i)
      · refine .inr (.inl ⟨by simp [get_of_always hv i], _, ihR hdL hR, ?_⟩)
        rw [applyConnective_atPoint, hc]
        rfl
      · rw [Env.merge_atPoint hdL (evalExpr_shape hR)]
        cases hr : (k.runsRight (Column n Float) b).get i with
        | true =>
          refine .inr (.inl ⟨by simp, _, ihR hdL hR, ?_⟩)
          rw [applyConnective_atPoint, hc]
          rfl
        | false =>
          -- what the right operand yields at this point leaves the left one as it is
          refine .inl ⟨.inl (by simp), ?_, by simp⟩
          obtain ⟨b', -, rfl⟩ := applyConnective_ok.mp hc
          rw [Connective.get_runsRight] at hr
          simp [Value.atPoint, Carrier.zipTruth, Connective.apply_of_settled hr]
  | negate operand ih =>
    obtain ⟨x, hx, rfl⟩ := evalExpr_negate_ok.mp h
    refine evalExpr_negate_ok.mpr ⟨_, ih hd hx, ?_⟩
    simp [Value.atPoint, Carrier.map]
  | call f args ih =>
    obtain ⟨hacc, xs, hxs, hv⟩ := evalExpr_call_ok.mp h
    refine evalExpr_call_ok.mpr ⟨hacc, _,
      evalArgs_atPoint_of (fun e he E E' V hd h => ih e he hd h) hd hxs,
      applyBuiltin_atPoint hv i⟩
  | conditional c t f ihC ihT ihF =>
    obtain ⟨mask, E₁, hC, hw⟩ := evalExpr_conditional_ok.mp h
    have hd₁ : E₁.Distinct := hd.of_shape_eq (evalExpr_shape hC)
    refine evalExpr_conditional_ok.mpr ⟨_, _, ihC hd hC, ?_⟩
    -- all points take one branch, or both run and each point keeps what it takes
    rcases hw with ⟨hv | hv, hT⟩ | ⟨hv, hF⟩ | ⟨hv, vT, ET, vF, EF, hT, hF, hc, rfl⟩
    · exact .inl ⟨.inl (by simp [get_of_always hv i]), ihT hd₁ hT⟩
    · exact absurd hv (verdict_ne_vacuous i)
    · exact .inr (.inl ⟨by simp [get_of_never hv i], ihF hd₁ hF⟩)
    · have hs : ET.shape = EF.shape := (evalExpr_shape hT).trans (evalExpr_shape hF).symm
      rw [Value.choose?_atPoint hc, Env.merge_atPoint (hd₁.of_shape_eq (evalExpr_shape hF)) hs]
      cases hm : mask.get i with
      | true => exact .inl ⟨.inl (by simp), ihT hd₁ hT⟩
      | false => exact .inr (.inl ⟨by simp, ihF hd₁ hF⟩)
  | step name op =>
    obtain ⟨x, hx, hn, rfl, rfl⟩ := evalExpr_step_ok.mp h
    refine evalExpr_step_ok.mpr ⟨x.get i, ?_, hn, ?_, ?_⟩
    · rw [Env.get?_atPoint, hx]
      rfl
    · simp [Value.atPoint, Carrier.map]
    · rw [Env.set_atPoint]
  | misplaced display => simp at h

/-- The arguments of a function at all points are at each point those at the point. -/
theorem evalArgs_atPoint {f : Builtin} {place : Nat} {args : List Expr}
    {xs : List (Column n Float)} (hd : E.Distinct)
    (h : evalArgs angles E f place args = .ok (xs, E')) (i : Fin n) :
    evalArgs angles (E.atPoint i) f place args = .ok (xs.map (·.get i), E'.atPoint i) :=
  evalArgs_atPoint_of (fun _ _ _ _ _ hd h => evalExpr_atPoint hd h i) hd h

/-- The values of a row of expressions at all points are at each point those at the point. -/
theorem evalAll_atPoint {es : List Expr} {vs : List (Value (Column n Float) (Column n Bool))}
    (hd : E.Distinct) (h : evalAll angles E es = .ok (vs, E')) (i : Fin n) :
    evalAll angles (E.atPoint i) es = .ok (vs.map (Value.atPoint · i), E'.atPoint i) := by
  induction es generalizing E vs with
  | nil =>
    obtain ⟨rfl, rfl⟩ := evalAll_nil_ok.mp h
    exact evalAll_nil_ok.mpr ⟨rfl, rfl⟩
  | cons e es ih =>
    obtain ⟨w, E₁, rest, he, hes, rfl⟩ := evalAll_cons_ok.mp h
    have hd₁ : E₁.Distinct := hd.of_shape_eq (evalExpr_shape he)
    exact evalAll_cons_ok.mpr ⟨_, _, _, evalExpr_atPoint hd he i, ih hd₁ hes, rfl⟩

/-! ### Statements -/

variable {S S' : BatchState n}

theorem Value.axes?_atPoint (v : Value (Column n Float) (Column n Bool)) (i : Fin n) :
    (v.atPoint i).axes? = v.axes?.map fun axes => axes.map (·.get i) := by
  cases v <;> rfl

theorem assignAll_zip_eq (names : List String)
    (vs : List (Value (Column n Float) (Column n Bool))) (i : Fin n) :
    assignAll (E.atPoint i) (names.zip (vs.map (Value.atPoint · i))) =
      (assignAll E (names.zip vs)).map (Env.atPoint · i) := by
  have hz : names.zip (vs.map (Value.atPoint · i)) = Env.atPoint (names.zip vs) i := by
    rw [List.zip_map_right]
    rfl
  rw [hz, assignAll_atPoint]

theorem assignAll_zip_atPoint {names : List String}
    {vs : List (Value (Column n Float) (Column n Bool))}
    (h : assignAll E (names.zip vs) = .ok E') (i : Fin n) :
    assignAll (E.atPoint i) (names.zip (vs.map (Value.atPoint · i))) = .ok (E'.atPoint i) := by
  rw [assignAll_zip_eq, h]
  rfl

/-- The state that a statement leaves at all points is at each point the one that it leaves
there. -/
theorem execute_atPoint {statement : Stmt} (hd : S.env.Distinct)
    (h : execute angles S statement = .ok S') (i : Fin n) :
    execute angles (S.atPoint i) statement = .ok (S'.atPoint i) := by
  induction statement using Stmt.induction generalizing S S' with
  | assign name value =>
    obtain ⟨w, E₁, hw, hn, rfl⟩ := execute_assign_ok.mp h
    refine execute_assign_ok.mpr ⟨_, _, evalExpr_atPoint hd hw i, hn, ?_⟩
    simp [State.atPoint]
  | unpack names value =>
    obtain ⟨w, E₁, axes, E₂, hw, ha, hl, hs, rfl⟩ := execute_unpack_ok.mp h
    refine execute_unpack_ok.mpr ⟨_, _, axes.map (·.get i), _, evalExpr_atPoint hd hw i, ?_,
      by simpa using hl, ?_, rfl⟩
    · rw [Value.axes?_atPoint, ha]
      rfl
    · have := assignAll_zip_atPoint hs i
      rw [List.map_map] at this ⊢
      exact this
  | assignEach names values =>
    obtain ⟨vs, E₁, E₂, hvs, hs, rfl⟩ := execute_assignEach_ok.mp h
    refine execute_assignEach_ok.mpr ⟨_, _, _, evalAll_atPoint hd hvs i,
      assignAll_zip_atPoint hs i, ?_⟩
    simp only [State.atPoint, State.mk.injEq, true_and]
    cases hvs' : vs.getLast? with
    | none => simp [hvs']
    | some w => simp [hvs']
  | block statements ih =>
    rw [execute_block] at h ⊢
    -- the statements of the block, one after the other
    induction statements generalizing S with
    | nil =>
      rw [executeAll_nil, Except.ok.injEq] at h
      rw [executeAll_nil, h]
    | cons first rest ihRest =>
      rw [executeAll_cons, bind_eq_ok] at h
      obtain ⟨S₁, hf, hr⟩ := h
      rw [executeAll_cons, ih first (by simp) hd hf]
      exact ihRest (fun t ht => ih t (by simp [ht])) (distinct_invariant.execute hd hf) hr
  | result value =>
    obtain ⟨w, E₁, hw, rfl⟩ := execute_result_ok.mp h
    exact execute_result_ok.mpr ⟨_, _, evalExpr_atPoint hd hw i, rfl⟩
  | empty =>
    rw [execute_empty, Except.ok.injEq] at h
    rw [execute_empty, h]
  | misplaced display => simp at h

/-- A run to the end passes through one state for each statement, at each point the one that
the run at the point passes through. -/
theorem traceAll_atPoint {statements : List Stmt} (hd : S.env.Distinct)
    (h : executeAll angles S statements = .ok S') :
    (traceAll angles S statements).1.length = statements.length ∧
      ∀ i : Fin n, (traceAll angles S statements).1.map (State.atPoint · i) =
        (traceAll angles (S.atPoint i) statements).1 := by
  induction statements generalizing S with
  | nil =>
    refine ⟨rfl, fun i => ?_⟩
    rw [traceAll, traceAll]
    rfl
  | cons first rest ih =>
    rw [executeAll_cons, bind_eq_ok] at h
    obtain ⟨S₁, hf, hr⟩ := h
    obtain ⟨hlen, hstates⟩ := ih (distinct_invariant.execute hd hf) hr
    refine ⟨by simp [traceAll, hf, hlen], fun i => ?_⟩
    rw [traceAll, traceAll, hf, execute_atPoint hd hf i]
    simp [hstates i]

/-! ### Programs -/

theorem columns_get (points : List Point) (i : Fin points.length) :
    (columns points).1.get i = points[i].x ∧ (columns points).2.1.get i = points[i].y ∧
      (columns points).2.2.get i = points[i].z := by
  simp [columns]

/-- The state at the beginning of a run at several points, at one of them. -/
theorem initialState_atPoint (points : List Point) (i : Fin points.length) :
    (initialState angles (columns points).1 (columns points).2.1 (columns points).2.2 :
        BatchState points.length).atPoint i =
      initialState angles points[i].x points[i].y points[i].z := by
  obtain ⟨hx, hy, hz⟩ := columns_get points i
  rw [← hx, ← hy, ← hz]
  rfl

/-- A run at several points ends with the number that its last state yields. -/
theorem evaluateMany_ok {program : Stmt} {points : List Point} {distances : List Float} :
    evaluateMany angles program points = .ok distances ↔
      ∃ (S : BatchState points.length) (x : Column points.length Float),
        execute angles (initialState angles (columns points).1 (columns points).2.1
          (columns points).2.2) program = .ok S ∧
        S.last = some (.scalar x) ∧ distances = x.toList := by
  simp only [evaluateMany, runAt, bind_eq_ok, pure_eq_ok, State.result_ok]
  constructor
  · rintro ⟨x, ⟨S, hS, hx⟩, rfl⟩
    exact ⟨S, x, hS, hx, rfl⟩
  · rintro ⟨S, x, hS, hx, rfl⟩
    exact ⟨x, ⟨S, hS, hx⟩, rfl⟩

/-- Distances at several points are one for each. -/
theorem length_of_evaluateMany {program : Stmt} {points : List Point} {distances : List Float}
    (h : evaluateMany angles program points = .ok distances) : distances.length = points.length := by
  obtain ⟨S, x, -, -, rfl⟩ := evaluateMany_ok.mp h
  simp [Column.toList]

/-- Batch soundness: where a program has distances at several points at once, there is one for
each point, and it is the distance at the point. The run passes through one state for each
statement, and every binding of it is at each point that of the run at the point. -/
theorem evaluateMany_sound {program : Stmt} {points : List Point} {distances : List Float}
    (h : evaluateMany angles program points = .ok distances) :
    distances.length = points.length ∧
      (traceMany angles program points).1.length = program.flatten.length ∧
      ∀ i : Fin points.length,
        (∃ d, distances[i]? = some d ∧ evaluate angles program points[i] = .ok d) ∧
          (traceMany angles program points).1.map (State.atPoint · i) =
            (traceAt angles program points[i]).1 := by
  obtain ⟨S, x, hS, hx, rfl⟩ := evaluateMany_ok.mp h
  have hd : (initialEnv angles (columns points).1 (columns points).2.1 (columns points).2.2 :
      Env (Column points.length Float) (Column points.length Bool)).Distinct :=
    initialEnv_distinct _ _ _
  obtain ⟨hlen, hstates⟩ := traceAll_atPoint hd ((executeAll_flatten program).trans hS)
  refine ⟨length_of_evaluateMany h, hlen, fun i => ⟨⟨x.get i, by simp [Column.toList], ?_⟩, ?_⟩⟩
  · have hs := execute_atPoint hd hS i
    rw [initialState_atPoint] at hs
    rw [evaluate, runAt, hs]
    show State.result (S.atPoint i) = .ok (x.get i)
    rw [State.atPoint, hx]
    rfl
  · rw [traceAt, ← initialState_atPoint]
    exact hstates i

/-- The program `x > 0 ? x++ : y`. -/
def steppedWherePositive : Stmt :=
  .result (.conditional (.binary .greater (.variable "x") (.number 0)) (.step "x" .increment)
    (.variable "y"))

/-- A point that steps a variable and one that does not, run together and one by one. -/
theorem steppedWherePositive_sound :
    evaluateMany {} steppedWherePositive [⟨1, 5, 0⟩, ⟨-1, 5, 0⟩] = .ok [2, 5] ∧
      ∀ i : Fin 2, ∃ d, [(2 : Float), 5][i]? = some d ∧
        evaluate {} steppedWherePositive ([⟨1, 5, 0⟩, ⟨-1, 5, 0⟩] : List Point)[i] = .ok d := by
  have h : evaluateMany {} steppedWherePositive [⟨1, 5, 0⟩, ⟨-1, 5, 0⟩] = .ok [2, 5] := by
    decide +kernel
  exact ⟨h, fun i => ((evaluateMany_sound h).2.2 i).1⟩

end FieldLang
