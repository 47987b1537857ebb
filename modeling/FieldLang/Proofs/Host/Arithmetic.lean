/-
Arithmetic expressions, as they are evaluated and as they are compiled.

* `Expr.Arithmetic` : expressions of literals and angles;
* `Expr.double`, `evaluate_arithmetic` : the double that such an expression is evaluated to;
* `Expr.native`, `evalHost_arithmetic` : the value that the host has for it;
* `call_arithmetic` : what the function yields that it is compiled to.

Design notes: literals and angles are all that a compiled function can hold whole numbers of, since the
coordinates are numbers of the array library.
-/
import FieldLang.Proofs.Host.Naming
import FieldLang.Proofs.Host.Zeros

namespace FieldLang

open HostWriter

/-! ### Expressions -/

/-- An expression of literals and angles with signs, sums, differences, products, quotients and
powers. -/
def Expr.Arithmetic : Expr → Prop
  | .number _ => True
  | .variable name => name ∈ ["a0", "a1"]
  | .negate operand => operand.Arithmetic
  | .binary op lhs rhs => op ∈ [.add, .sub, .mul, .div, .pow] ∧ lhs.Arithmetic ∧ rhs.Arithmetic
  | _ => False

/-- The angle of a given name. -/
def Angles.named (angles : Angles) (name : String) : Float :=
  if name = "a0" then angles.a0 else angles.a1

section Evaluation

variable (angles : Angles)

/-- The double that an arithmetic expression is evaluated to. -/
def Expr.double : Expr → Float
  | .number value => value
  | .variable name => angles.named name
  | .negate operand => -operand.double
  | .binary op lhs rhs =>
    match op.arithmetic? with
    | some f => f lhs.double rhs.double
    | none => 0
  | _ => 0

/-- The value that the host has for a literal. -/
def nativeNumber (value : Float) : HostValue :=
  match Decimal.parts value with
  | .finite negative mag =>
    if Writing.isShortWhole mag then .whole .plain (if negative then -mag.whole else mag.whole)
    else .real .plain value
  | _ => .real .plain value

/-- The value that the host has for an arithmetic expression. -/
def Expr.native : Expr → Except HostFault HostValue
  | .number value => .ok (nativeNumber value)
  | .variable name => .ok (nativeNumber (angles.named name))
  | .negate operand => do (← operand.native).neg
  | .binary op lhs rhs => do
    let v ← lhs.native
    let w ← rhs.native
    v.arith op w
  | _ => .ok .nothing

end Evaluation

variable {angles : Angles} {e : Expr}

theorem Expr.Arithmetic.named (h : e.Arithmetic) : e.Named := by
  induction e using Expr.induction with
  | number value => trivial
  | name name =>
    have hgiven : ∀ name ∈ ["a0", "a1"], name ∈ givenNames := by decide
    exact isName_given (hgiven name h)
  | negate operand ih => exact ih h
  | binary op lhs rhs ihl ihr => exact ⟨ihl h.2.1, ihr h.2.2⟩
  | _ => exact h.elim

/-! ### Evaluation -/

theorem evalExpr_arithmetic (h : e.Arithmetic) {env : Env Float Bool}
    (h₀ : env.get? "a0" = some (.scalar angles.a0)) (h₁ : env.get? "a1" = some (.scalar angles.a1)) :
    evalExpr angles env e = .ok (.scalar (e.double angles), env) := by
  induction e using Expr.induction with
  | number value => rfl
  | name name =>
    rw [evalExpr]
    have hname : name = "a0" ∨ name = "a1" := by simpa [Expr.Arithmetic] using h
    rcases hname with rfl | rfl
    · rw [h₀]
      rfl
    · rw [h₁]
      rfl
  | negate operand ih =>
    rw [evalExpr, ih h]
    rfl
  | binary op lhs rhs ihl ihr =>
    obtain ⟨hop, hl, hr⟩ := h
    simp only [List.mem_cons, List.not_mem_nil, or_false] at hop
    rw [evalExpr, ihl hl]
    rcases hop with rfl | rfl | rfl | rfl | rfl <;>
      simp only [BinOp.connective?, ihr hr, bind, Except.bind] <;> rfl
  | _ => exact h.elim

/-- An arithmetic expression is evaluated to its double at every point. -/
theorem evaluate_arithmetic (h : e.Arithmetic) (point : Point) :
    evaluate angles (.block [.result e]) point = .ok (e.double angles) := by
  have hvalue : evalExpr angles (initialEnv angles point.x point.y point.z) e =
      .ok (.scalar (e.double angles), initialEnv angles point.x point.y point.z) :=
    evalExpr_arithmetic h rfl rfl
  rw [evaluate, runAt, execute, executeAll, execute, initialState, hvalue]
  rfl

/-! ### The host -/

section Frames

variable {frame : HostFrame}

/-- The value of a literal that is read as it is written. -/
theorem evalHost_nativeNumber (hinf : frame.locals.lookup "inf" = none)
    (hnan : frame.locals.lookup "nan" = none) (value : Float) :
    evalHost .asWritten frame (numberTree value) = .ok (nativeNumber value, frame) := by
  have hinf : evalHost .asWritten frame (.name "inf") =
      .ok (.real .plain Decimal.infinity, frame) := by
    rw [evalHost, HostFrame.get, hinf]
    rfl
  have hnan : evalHost .asWritten frame (.name "nan") = .ok (.real .plain Double.nan, frame) := by
    rw [evalHost, HostFrame.get, hnan]
    rfl
  rw [numberTree, nativeNumber]
  cases hp : Decimal.parts value with
  | nan =>
    have hvalue : Double.nan = value := Decimal.parts_eq_nan (by decide) hp
    show evalHost .asWritten frame (.name "nan") = _
    rw [hnan, ← hvalue]
  | infinite negative =>
    have hvalue := Decimal.infinity_of_parts hp
    cases negative with
    | false =>
      show evalHost .asWritten frame (.name "inf") = _
      rw [hinf, hvalue]
      rfl
    | true =>
      show evalHost .asWritten frame (.negate (.name "inf")) = _
      rw [evalHost, hinf, hvalue]
      rfl
  | finite negative mag =>
    have hmag := Decimal.ofMagnitude_eq hp
    -- a short whole number is written without a point, and stays whole for the host
    by_cases hshort : Writing.isShortWhole mag = true
    · cases negative <;> simp only [magnitudeTree, if_pos hshort, evalHost] <;> rfl
    · cases negative with
      | false =>
        simp only [magnitudeTree, if_neg hshort, evalHost, hmag, Decimal.magnitude_of_not_negative hp]
        rfl
      | true =>
        simp only [magnitudeTree, if_neg hshort, evalHost, hmag, bind, Except.bind]
        rw [← congrArg (HostValue.real .plain) (Decimal.neg_magnitude hp)]
        rfl

theorem evalHost_arithmetic {w : HostWriter} (hw : ¬Clashes w.functionName) (h : e.Arithmetic)
    (hinf : frame.locals.lookup "inf" = none) (hnan : frame.locals.lookup "nan" = none)
    (h₀ : frame.get .asWritten "a0" = .ok (nativeNumber angles.a0))
    (h₁ : frame.get .asWritten "a1" = .ok (nativeNumber angles.a1)) :
    evalHost .asWritten frame (w.tree e) = (·, frame) <$> e.native angles := by
  induction e using Expr.induction with
  | number value => exact evalHost_nativeNumber hinf hnan value
  | name name =>
    have hname : name = "a0" ∨ name = "a1" := by simpa [Expr.Arithmetic] using h
    rw [tree, evalHost]
    rcases hname with rfl | rfl
    · rw [variableText_given hw (by decide), h₀]
      rfl
    · rw [variableText_given hw (by decide), h₁]
      rfl
  | negate operand ih =>
    rw [tree, evalHost, ih h, Expr.native]
    cases operand.native angles <;> rfl
  | binary op lhs rhs ihl ihr =>
    obtain ⟨hop, hl, hr⟩ := h
    simp only [List.mem_cons, List.not_mem_nil, or_false] at hop
    have hconnective : op.connective? = none := by rcases hop with rfl | rfl | rfl | rfl | rfl <;> rfl
    -- none of these operators compares, so the host computes on the two values
    have hoperate : ∀ v v' : HostValue, v.operate op v' = v.arith op v' := by
      intro v v'
      rcases hop with rfl | rfl | rfl | rfl | rfl <;> rfl
    rw [evalHost_operator hconnective, ihl hl, Expr.native]
    cases lhs.native angles with
    | error fault => rfl
    | ok v =>
      show evalHost .asWritten frame (w.tree rhs) >>= _ = _
      rw [ihr hr]
      cases rhs.native angles with
      | error fault => rfl
      | ok v' =>
        show (do return (← v.operate op v', frame)) = (·, frame) <$> v.arith op v'
        rw [hoperate]
        cases v.arith op v' <;> rfl
  | _ => exact h.elim

end Frames

section Calls

/-- An arithmetic expression is written. -/
theorem expr_ok (w : HostWriter) (h : e.Arithmetic) : ∃ r, w.expr e = .ok r := by
  induction e using Expr.induction with
  | negate operand ih =>
    obtain ⟨r, hr⟩ := ih h
    rw [HostWriter.expr, hr]
    exact ⟨_, rfl⟩
  | binary op lhs rhs ihl ihr =>
    obtain ⟨l, hl⟩ := ihl h.2.1
    obtain ⟨r, hr⟩ := ihr h.2.2
    rw [HostWriter.expr, hl, hr]
    exact ⟨_, rfl⟩
  | number value => exact ⟨_, rfl⟩
  | name name => exact ⟨_, rfl⟩
  | _ => exact h.elim

/-- An arithmetic expression is compiled to the function that returns it, unless it has too many
brackets. -/
theorem compile_arithmetic (angles : Angles) (h : e.Arithmetic) :
    ∃ source, compile angles defaultFunctionName (.block [.result e]) =
      if Host.nestingLimit < brackets e then .error .badText
      else .ok ⟨source, function ⟨defaultFunctionName, angles.a0, angles.a1⟩ [] (.result e)⟩ := by
  obtain ⟨r, hr⟩ := expr_ok ⟨defaultFunctionName, angles.a0, angles.a1⟩ h
  exact compile_result (accepted_default.checkName angles.a0 angles.a1) (by decide) h.named hr

/-- The function yields the host's value, as a double. -/
theorem call_arithmetic (angles : Angles) (h : e.Arithmetic) (x y z : Float) :
    (function ⟨defaultFunctionName, angles.a0, angles.a1⟩ [] (.result e)).call .asWritten x y z =
      e.native angles >>= fun v => match v with
        | .tuple items => .error (.vectorResult items.length)
        | v => v.toFloat := by
  have hall : AllSimple ([] ++ [.result e]) := fun s hs => by
    obtain rfl := List.mem_singleton.mp hs
    exact ⟨h.named, by simp, by simp⟩
  have henter := holds_enter (w := ⟨defaultFunctionName, angles.a0, angles.a1⟩) not_clashes_default
    hall x y z
  have hinf := henter.globals "inf" (by decide)
  have hnan := henter.globals "nan" (by decide)
  have lookup_set : ∀ {frame : HostFrame} {name : String}, frame.locals.lookup name = none →
      ∀ other, name ≠ other → ∀ v, (frame.set other v).locals.lookup name = none :=
    fun h other hne v => (HostFrame.lookup_set_of_ne hne).trans h
  rw [HostFunction.call]
  generalize HostFunction.enter _ _ = frame at *
  -- the first two lines bind the angles, and leave inf and nan unbound
  show (runLines .asWritten frame (.assign (.name "a0") (numberTree angles.a0) ::
    .assign (.name "a1") (numberTree angles.a1) :: [.return (some (tree _ e))]) >>= _) = _
  rw [runLines, evalHost_nativeNumber hinf hnan]
  simp only [bind, Except.bind]
  have hinf₀ := lookup_set hinf "a0" (by decide) (nativeNumber angles.a0)
  have hnan₀ := lookup_set hnan "a0" (by decide) (nativeNumber angles.a0)
  rw [runLines, evalHost_nativeNumber hinf₀ hnan₀]
  simp only [bind, Except.bind]
  rw [runLines, evalHost_arithmetic not_clashes_default h (lookup_set hinf₀ "a1" (by decide) _)
    (lookup_set hnan₀ "a1" (by decide) _)]
  · cases e.native angles <;> rfl
  · rw [HostFrame.get, HostFrame.lookup_set_of_ne (by decide), HostFrame.lookup_set_self]
  · rw [HostFrame.get, HostFrame.lookup_set_self]

end Calls

end FieldLang
