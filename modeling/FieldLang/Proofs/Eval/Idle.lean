/-
When a program has distances at several points at once.

* `Reaches` : the expressions that a run at several points evaluates;
* `IdleSafe`, `KindsAgree` : idle points do not fail, and branches have one kind;
* `execute_error_reaches` : where the failures of a run come from;
* `evaluateMany_ok_iff_idleSafe` : when a program with a distance at each point has distances
  at all of them at once.
-/
import FieldLang.Proofs.Eval.Visits

namespace FieldLang

variable {n : Nat} {angles : Angles} {E E' : Env (Column n Float) (Column n Bool)}

/-! ### Programs at several points -/

/-- Running the statement at several points at once, from the given states, evaluates the
expression at these points in the given environments. -/
inductive Reaches (angles : Angles) :
    (Fin n → SingleState) → Stmt → (Fin n → Env Float Bool) → Expr → Prop
  | result {s value ρ e} :
    Visits angles (fun i => (s i).env) value ρ e → Reaches angles s (.result value) ρ e
  | assign {s name value ρ e} :
    Visits angles (fun i => (s i).env) value ρ e → Reaches angles s (.assign name value) ρ e
  | unpack {s names value ρ e} :
    Visits angles (fun i => (s i).env) value ρ e → Reaches angles s (.unpack names value) ρ e
  | assignEach {s : Fin n → SingleState} {names values before e₁ after ρ e}
    {ρ₁ : Fin n → Env Float Bool} {vs : Fin n → List (Value Float Bool)} :
    values = before ++ e₁ :: after →
    (∀ i, evalAll angles (s i).env before = .ok (vs i, ρ₁ i)) →
    Visits angles ρ₁ e₁ ρ e → Reaches angles s (.assignEach names values) ρ e
  | block {s s₁ : Fin n → SingleState} {statements before t after ρ e} :
    statements = before ++ t :: after →
    (∀ i, executeAll angles (s i) before = .ok (s₁ i)) →
    Reaches angles s₁ t ρ e → Reaches angles s (.block statements) ρ e

variable {S S' : BatchState n}

private theorem evalAll_error_visits (hn : n ≠ 0) {es : List Expr} {err : EvalError}
    (hd : E.Distinct) (h : evalAll angles E es = .error err) :
    ∃ (before : List Expr) (e : Expr) (after : List Expr)
      (vs : Fin n → List (Value Float Bool)) (ρ₁ : Fin n → Env Float Bool),
      es = before ++ e :: after ∧
        (∀ i, evalAll angles (E.atPoint i) before = .ok (vs i, ρ₁ i)) ∧
        Obstructed angles ρ₁ e err := by
  induction es generalizing E with
  | nil =>
    rw [evalAll] at h
    cases h
  | cons e rest ih =>
    rcases evalAll_cons_error.mp h with he | ⟨w, E₁, he, hrest⟩
    · exact ⟨[], e, rest, fun _ => [], _, rfl, fun i => evalAll_nil_ok.mpr ⟨rfl, rfl⟩,
        evalExpr_error_visits hn hd he⟩
    · obtain ⟨before, e', after, vs, ρ₁, rfl, hbefore, ho⟩ :=
        ih (hd.of_shape_eq (evalExpr_shape he)) hrest
      refine ⟨e :: before, e', after, fun i => w.atPoint i :: vs i, ρ₁, rfl, fun i => ?_, ho⟩
      exact evalAll_cons_ok.mpr ⟨_, _, _, evalExpr_atPoint hd he i, hbefore i, rfl⟩

private theorem executeAll_error_reaches_of {statements : List Stmt} {err : EvalError}
    (hall : ∀ t ∈ statements, ∀ S : BatchState n, S.env.Distinct →
      execute angles S t = .error err →
      (∃ i, execute angles (S.atPoint i) t = .error err) ∨
        ∃ ρ e, Reaches angles S.atPoint t ρ e ∧ Obstructed angles ρ e err)
    (hd : S.env.Distinct) (h : executeAll angles S statements = .error err) :
    (∃ i, executeAll angles (S.atPoint i) statements = .error err) ∨
      ∃ (before : List Stmt) (t : Stmt) (after : List Stmt) (s₁ : Fin n → SingleState)
        (ρ : Fin n → Env Float Bool) (e : Expr), statements = before ++ t :: after ∧
        (∀ i, executeAll angles (S.atPoint i) before = .ok (s₁ i)) ∧
        Reaches angles s₁ t ρ e ∧ Obstructed angles ρ e err := by
  induction statements generalizing S with
  | nil =>
    rw [executeAll_nil] at h
    cases h
  | cons first rest ih =>
    rw [executeAll_cons, bind_eq_error] at h
    -- the first statement fails, or one of the others, which starts where the first one ends
    rcases h with hf | ⟨S₁, hf, hr⟩
    · rcases hall first (by simp) S hd hf with ⟨i, hi⟩ | ⟨ρ, e, hre, ho⟩
      · refine .inl ⟨i, ?_⟩
        rw [executeAll_cons, bind_eq_error]
        exact .inl hi
      · exact .inr ⟨[], first, rest, _, ρ, e, rfl, fun i => executeAll_nil, hre, ho⟩
    · rcases ih (fun t ht => hall t (by simp [ht])) (distinct_invariant.execute hd hf) hr with
        ⟨i, hi⟩ | ⟨before, t, after, s₁, ρ, e, rfl, hbefore, hre, ho⟩
      · refine .inl ⟨i, ?_⟩
        rw [executeAll_cons, bind_eq_error]
        exact .inr ⟨_, execute_atPoint hd hf i, hi⟩
      · refine .inr ⟨first :: before, t, after, s₁, ρ, e, rfl, fun i => ?_, hre, ho⟩
        rw [executeAll_cons, execute_atPoint hd hf i]
        exact hbefore i

theorem assignAll_error_atPoint {names : List String}
    {vs : List (Value (Column n Float) (Column n Bool))} {err : EvalError}
    (h : assignAll E (names.zip vs) = .error err) (i : Fin n) :
    assignAll (E.atPoint i) (names.zip (vs.map (Value.atPoint · i))) = .error err := by
  rw [assignAll_zip_eq, h]
  rfl

/-- A failure at several points at once is that of the statement at one of them, or that of an
expression that is evaluated at all of them. -/
theorem execute_error_reaches (hn : n ≠ 0) {statement : Stmt} {err : EvalError}
    (hd : S.env.Distinct) (h : execute angles S statement = .error err) :
    (∃ i, execute angles (S.atPoint i) statement = .error err) ∨
      ∃ ρ e, Reaches angles S.atPoint statement ρ e ∧ Obstructed angles ρ e err := by
  -- a failure for the kinds of values or the names is that of any point, so the first one will do
  let i₀ : Fin n := ⟨0, Nat.pos_of_ne_zero hn⟩
  induction statement using Stmt.induction generalizing S with
  | assign name value =>
    rcases execute_assign_error.mp h with hv | ⟨w, E₁, hw, ha⟩
    · exact .inr ⟨_, _, .assign .self, evalExpr_error_visits hn hd hv⟩
    · refine .inl ⟨i₀, execute_assign_error.mpr (.inr ⟨_, _, evalExpr_atPoint hd hw i₀, ?_⟩)⟩
      exact assign_error.mpr (assign_error.mp ha)
  | unpack names value =>
    rcases execute_unpack_error.mp h with hv | ⟨w, E₁, hw, ⟨hl, rfl⟩ | ⟨axes, ha, hl, hs⟩⟩
    · exact .inr ⟨_, _, .unpack .self, evalExpr_error_visits hn hd hv⟩
    · refine .inl ⟨i₀, execute_unpack_error.mpr (.inr ⟨_, _, evalExpr_atPoint hd hw i₀,
        .inl ⟨?_, by simp⟩⟩)⟩
      rw [Value.axes?_atPoint, Option.map_map]
      simpa [Function.comp_def] using hl
    · refine .inl ⟨i₀, execute_unpack_error.mpr (.inr ⟨_, _, evalExpr_atPoint hd hw i₀,
        .inr ⟨axes.map (·.get i₀), ?_, by simpa using hl, ?_⟩⟩)⟩
      · rw [Value.axes?_atPoint, ha]
        rfl
      · have := assignAll_error_atPoint hs i₀
        rw [List.map_map] at this ⊢
        exact this
  | assignEach names values =>
    rcases execute_assignEach_error.mp h with hvs | ⟨vs, E₁, hvs, hs⟩
    · obtain ⟨before, e, after, vs, ρ₁, hsplit, hbefore, ho⟩ := evalAll_error_visits hn hd hvs
      exact .inr ⟨_, _, .assignEach hsplit hbefore .self, ho⟩
    · exact .inl ⟨i₀, execute_assignEach_error.mpr (.inr ⟨_, _, evalAll_atPoint hd hvs i₀,
        assignAll_error_atPoint hs i₀⟩)⟩
  | block statements ih =>
    rw [execute_block] at h
    rcases executeAll_error_reaches_of (fun t ht S hd h => ih t ht hd h) hd h with
      ⟨i, hi⟩ | ⟨before, t, after, s₁, ρ, e, hsplit, hbefore, hre, ho⟩
    · exact .inl ⟨i, by rw [execute_block, hi]⟩
    · exact .inr ⟨ρ, e, .block hsplit hbefore hre, ho⟩
  | result value =>
    exact .inr ⟨_, _, .result .self, evalExpr_error_visits hn hd (execute_result_error.mp h)⟩
  | empty => simp at h
  | misplaced display =>
    rw [execute_misplaced] at h
    exact .inl ⟨i₀, (execute_misplaced display).trans (by simpa using h)⟩

/-- All that a run to the end evaluates has a value at all points at once. -/
theorem Reaches.runsTogether {s : Fin n → SingleState} {statement : Stmt}
    {ρ : Fin n → Env Float Bool} {e : Expr} (hr : Reaches angles s statement ρ e)
    (hd : S.env.Distinct) (hs : ∀ i, s i = S.atPoint i)
    (h : execute angles S statement = .ok S') : RunsTogether angles ρ e := by
  -- what is run before leaves at each point what it leaves at all points at once
  induction hr generalizing S S' with
  | result hv =>
    obtain ⟨w, E₁, hw, -⟩ := execute_result_ok.mp h
    exact hv.runsTogether ⟨S.env, E₁, w, hd, fun i => congrArg State.env (hs i), hw⟩
  | assign hv =>
    obtain ⟨w, E₁, hw, -⟩ := execute_assign_ok.mp h
    exact hv.runsTogether ⟨S.env, E₁, w, hd, fun i => congrArg State.env (hs i), hw⟩
  | unpack hv =>
    obtain ⟨w, E₁, axes, E₂, hw, -⟩ := execute_unpack_ok.mp h
    exact hv.runsTogether ⟨S.env, E₁, w, hd, fun i => congrArg State.env (hs i), hw⟩
  | assignEach hsplit hbefore hv =>
    obtain ⟨vs, E₁, E₂, hvs, -⟩ := execute_assignEach_ok.mp h
    rw [hsplit] at hvs
    obtain ⟨us, E₃, ws, hus, hws⟩ := evalAll_append_ok hvs
    obtain ⟨w, E₄, rest, hw, -⟩ := evalAll_cons_ok.mp hws
    refine hv.runsTogether ⟨E₃, E₄, w, hd.of_shape_eq (evalAll_shape hus), fun i => ?_, hw⟩
    have hi := hbefore i
    rw [hs i] at hi
    have hi' := (evalAll_atPoint hd hus i).symm.trans hi
    exact (Prod.mk.inj (Except.ok.inj hi')).2.symm
  | block hsplit hbefore _ ih =>
    rw [execute_block, hsplit, executeAll_append, bind_eq_ok] at h
    obtain ⟨S₁, hS₁, h⟩ := h
    rw [executeAll_cons, bind_eq_ok] at h
    obtain ⟨S₂, hS₂, -⟩ := h
    rw [← execute_block] at hS₁
    refine ih (distinct_invariant.execute hd hS₁) (fun i => ?_) hS₂
    have hi := hbefore i
    rw [hs i, ← execute_block, execute_atPoint hd hS₁ i] at hi
    exact (Except.ok.inj hi).symm

theorem Reaches.trans {s : Fin n → SingleState} {statement : Stmt}
    {ρ ρ' : Fin n → Env Float Bool} {e e' : Expr} (h : Reaches angles s statement ρ e)
    (h' : Visits angles ρ e ρ' e') : Reaches angles s statement ρ' e' := by
  induction h with
  | result hv => exact .result (hv.trans h')
  | assign hv => exact .assign (hv.trans h')
  | unpack hv => exact .unpack (hv.trans h')
  | assignEach hsplit hbefore hv => exact .assignEach hsplit hbefore (hv.trans h')
  | block hsplit hbefore _ ih => exact .block hsplit hbefore (ih h')

/-- The states at the beginning of the runs at several points. -/
def startsAt (angles : Angles) (points : List Point) : Fin points.length → SingleState :=
  fun i => initialState angles (points.get i).x (points.get i).y (points.get i).z

/-- Every expression that is evaluated because one of the points needs it has a value at the
other points as well. -/
def IdleSafe (angles : Angles) (program : Stmt) (points : List Point) : Prop :=
  ∀ ρ e, Reaches angles (startsAt angles points) program ρ e →
    ∀ i, ∃ r, evalExpr angles (ρ i) e = .ok r

/-- The branches of every conditional that is evaluated agree. -/
def KindsAgree (angles : Angles) (program : Stmt) (points : List Point) : Prop :=
  ∀ ρ c t f, Reaches angles (startsAt angles points) program ρ (.conditional c t f) →
    BranchesAgree angles ρ c t f

/-- A program has no distances at several points at once because the run fails, or because its
last value is no number. -/
theorem evaluateMany_error {program : Stmt} {points : List Point} {err : EvalError} :
    evaluateMany angles program points = .error err ↔
      execute angles (initialState angles (columns points).1 (columns points).2.1
          (columns points).2.2 : BatchState points.length) program = .error err ∨
        ∃ S : BatchState points.length, execute angles (initialState angles (columns points).1
          (columns points).2.1 (columns points).2.2) program = .ok S ∧
          S.result = .error err := by
  simp only [evaluateMany, runAt, bind_eq_error, pure, Except.pure, reduceCtorEq, and_false,
    exists_false, or_false]

theorem State.result_atPoint (S : BatchState n) (i : Fin n) :
    (S.atPoint i).result = S.result.map (·.get i) := by
  rw [State.result, State.result, State.atPoint]
  cases S.last with
  | none => rfl
  | some w => cases w <;> rfl

section

variable {program : Stmt} {points : List Point}

/-- Where a program has distances at several points at once, every expression that is evaluated
has a value at all of them, and branches agree. -/
theorem idleSafe_and_kindsAgree_of_ok {distances : List Float}
    (h : evaluateMany angles program points = .ok distances) :
    IdleSafe angles program points ∧ KindsAgree angles program points := by
  obtain ⟨S, x, hS, -, -⟩ := evaluateMany_ok.mp h
  have hd : (initialEnv angles (columns points).1 (columns points).2.1 (columns points).2.2 :
      Env (Column points.length Float) (Column points.length Bool)).Distinct :=
    initialEnv_distinct _ _ _
  have hs (i : Fin points.length) : startsAt angles points i = _ :=
    (initialState_atPoint points i).symm
  constructor
  · intro ρ e hr i
    exact (hr.runsTogether hd hs hS).atPoint i
  · intro ρ c t f hr
    exact (hr.runsTogether hd hs hS).branchesAgree

/-- Where a program has a distance at each of several points but not at all of them at once,
the reason is that branches have different kinds, or that an idle point has no value. -/
theorem obstructed_of_error (hne : points ≠ [])
    (hall : ∀ p ∈ points, ∃ d, evaluate angles program p = .ok d) {err : EvalError}
    (h : evaluateMany angles program points = .error err) :
    ∃ ρ e, Reaches angles (startsAt angles points) program ρ e ∧ Obstructed angles ρ e err := by
  have hn : points.length ≠ 0 := fun e => hne (List.length_eq_zero_iff.mp e)
  have hd : (initialEnv angles (columns points).1 (columns points).2.1 (columns points).2.2 :
      Env (Column points.length Float) (Column points.length Bool)).Distinct :=
    initialEnv_distinct _ _ _
  have hok (i : Fin points.length) : ∃ d, evaluate angles program points[i] = .ok d :=
    hall _ (List.getElem_mem i.2)
  rcases evaluateMany_error.mp h with hS | ⟨S, hS, hr⟩
  · rcases execute_error_reaches hn hd hS with ⟨i, hi⟩ | ⟨ρ, e, hre, ho⟩
    -- no statement fails at a point, where the program has a distance
    · obtain ⟨d, hd⟩ := hok i
      rw [initialState_atPoint] at hi
      rw [evaluate, runAt, hi] at hd
      cases hd
    · refine ⟨ρ, e, ?_, ho⟩
      have hstart : startsAt angles points = State.atPoint (initialState angles
          (columns points).1 (columns points).2.1 (columns points).2.2) :=
        funext fun i => (initialState_atPoint points i).symm
      rw [hstart]
      exact hre
  -- the run ends, so the last value is no number, at any of the points
  · let i₀ : Fin points.length := ⟨0, Nat.pos_of_ne_zero hn⟩
    obtain ⟨d, hd'⟩ := hok i₀
    have hi := execute_atPoint hd hS i₀
    rw [initialState_atPoint] at hi
    rw [evaluate, runAt, hi] at hd'
    have hres : (S.atPoint i₀).result = .ok d := hd'
    rw [State.result_atPoint, hr] at hres
    cases hres

/-- When a program that has a distance at each of several points has distances at all of them
at once: exactly if every expression that one of the points needs has a value at the others as
well, and branches agree. If it has none, that is for branches of different kinds, or for the
failure of an expression that is evaluated at a point; so if idle points are safe, branches of
different kinds are the only reason. -/
theorem evaluateMany_ok_iff_idleSafe (hne : points ≠ [])
    (hall : ∀ p ∈ points, ∃ d, evaluate angles program p = .ok d) :
    ((∃ distances, evaluateMany angles program points = .ok distances) ↔
        IdleSafe angles program points ∧ KindsAgree angles program points) ∧
      (∀ err, evaluateMany angles program points = .error err →
        (¬ KindsAgree angles program points ∧ ∃ k k', err = .branchKinds k k') ∨
          ∃ ρ e i, Reaches angles (startsAt angles points) program ρ e ∧
            evalExpr angles (ρ i) e = .error err) ∧
      (IdleSafe angles program points →
        (∃ distances, evaluateMany angles program points = .ok distances) ∨
          ∃ k k', evaluateMany angles program points = .error (.branchKinds k k')) := by
  -- a failure at all points is traced to a conditional whose branches disagree, or to one point
  have hreason (err : EvalError) (h : evaluateMany angles program points = .error err) :
      (¬ KindsAgree angles program points ∧ ∃ k k', err = .branchKinds k k') ∨
        ∃ ρ e i, Reaches angles (startsAt angles points) program ρ e ∧
          evalExpr angles (ρ i) e = .error err := by
    obtain ⟨ρ, e, hr, ⟨ρ', c, t, f, hv, hb, hk⟩ | ⟨ρ', e', i, hv, he⟩⟩ :=
      obstructed_of_error hne hall h
    · exact .inl ⟨fun hagree => hb (hagree ρ' c t f (hr.trans hv)), hk⟩
    · exact .inr ⟨ρ', e', i, hr.trans hv, he⟩
  have hsafe (hidle : IdleSafe angles program points) {err : EvalError}
      (h : evaluateMany angles program points = .error err) :
      ¬ KindsAgree angles program points ∧ ∃ k k', err = .branchKinds k k' := by
    refine (hreason err h).resolve_right ?_
    rintro ⟨ρ, e, i, hr, he⟩
    obtain ⟨r, hr⟩ := hidle ρ e hr i
    rw [hr] at he
    cases he
  refine ⟨⟨fun ⟨distances, h⟩ => idleSafe_and_kindsAgree_of_ok h, fun ⟨hidle, hagree⟩ => ?_⟩,
    hreason, fun hidle => ?_⟩
  · cases h : evaluateMany angles program points with
    | ok distances => exact ⟨distances, rfl⟩
    | error err => exact absurd hagree (hsafe hidle h).1
  · cases h : evaluateMany angles program points with
    | ok distances => exact .inl ⟨distances, rfl⟩
    | error err =>
      obtain ⟨-, k, k', rfl⟩ := hsafe hidle h
      exact .inr ⟨k, k', rfl⟩

end

/-- The program `x > 0 ? (x > 5 ? 1 : q) : 2`. -/
def nestedUnbound : Stmt :=
  .result (.conditional (.binary .greater (.variable "x") (.number 0))
    (.conditional (.binary .greater (.variable "x") (.number 5)) (.number 1) (.variable "q"))
    (.number 2))

/-- No point takes the branch `q` of the program, but the inner condition is false at the point
that is idle there, and the branch runs. -/
theorem nestedUnbound_obstructed :
    (∀ p ∈ [Point.mk 10 0 0, ⟨-1, 0, 0⟩], ∃ d, evaluate {} nestedUnbound p = .ok d) ∧
      evaluateMany {} nestedUnbound [⟨10, 0, 0⟩, ⟨-1, 0, 0⟩] = .error (.unbound "q") ∧
      ¬ (IdleSafe {} nestedUnbound [⟨10, 0, 0⟩, ⟨-1, 0, 0⟩] ∧
        KindsAgree {} nestedUnbound [⟨10, 0, 0⟩, ⟨-1, 0, 0⟩]) := by
  have hall : ∀ p ∈ [Point.mk 10 0 0, ⟨-1, 0, 0⟩],
      ∃ d, evaluate {} nestedUnbound p = .ok d := by
    intro p hp
    rcases List.mem_pair.mp hp with rfl | rfl
    · exact ⟨1, by decide⟩
    · exact ⟨2, by decide⟩
  have hfails : evaluateMany {} nestedUnbound [⟨10, 0, 0⟩, ⟨-1, 0, 0⟩] =
      .error (.unbound "q") := by
    decide
  refine ⟨hall, hfails, fun hsafe => ?_⟩
  obtain ⟨distances, h⟩ := (evaluateMany_ok_iff_idleSafe (by simp) hall).1.mpr hsafe
  rw [hfails] at h
  cases h

end FieldLang
