/-
Expressions of programs and of generated code.

* `evalHostAll_append` : arguments in two rows;
* `step_simulates`, `connective_simulates` : the nodes that the host evaluates in its own way;
* `tree_simulates` : the tree of an expression does what the expression does.
-/
import FieldLang.Proofs.Host.Calls
import FieldLang.Proofs.Host.Numbers
import FieldLang.Proofs.Syntax.Induction
import FieldLang.Proofs.Writing.Spelling

namespace FieldLang

variable {w : HostWriter} {angles : Angles}

/-! ### Results -/

namespace HostWriter

/-- The host computed the same value and left a frame that agrees. -/
def SameValue (w : HostWriter) (angles : Angles) (r : Value Float Bool × Env Float Bool)
    (s : HostValue × HostFrame) : Prop :=
  s.1 = r.1.toHost ∧ Agrees w angles r.2 s.2

/-- The same for the numbers of some arguments. -/
def SameNumbers (w : HostWriter) (angles : Angles) (count : Nat)
    (r : List Float × Env Float Bool) (s : List HostValue × HostFrame) : Prop :=
  r.1.length = count ∧ s.1 = r.1.map (.real .array) ∧ Agrees w angles r.2 s.2

/-- The same for values in a row. -/
def SameValues (w : HostWriter) (angles : Angles) (count : Nat)
    (r : List (Value Float Bool) × Env Float Bool) (s : List HostValue × HostFrame) : Prop :=
  r.1.length = count ∧ s.1 = r.1.map Value.toHost ∧ Agrees w angles r.2 s.2

end HostWriter

/-- What follows a value may go on with it. -/
theorem Simulates.bind_value {γ δ : Type} {R : γ → δ → Prop}
    {r : Except EvalError (Value Float Bool × Env Float Bool)}
    {s : Except HostFault (HostValue × HostFrame)}
    {f : Value Float Bool × Env Float Bool → Except EvalError γ}
    {g : HostValue × HostFrame → Except HostFault δ}
    (h : Simulates (HostWriter.SameValue w angles) r s)
    (hf : ∀ v env frame, Agrees w angles env frame →
      Simulates R (f (v, env)) (g (v.toHost, frame))) :
    Simulates R (r >>= f) (s >>= g) := by
  refine h.bind ?_
  rintro ⟨v, env⟩ ⟨u, frame⟩ ⟨hv, hagrees⟩
  obtain rfl : u = v.toHost := hv
  exact hf v env frame hagrees

namespace HostWriter

/-! ### Rows -/

theorem evalHostAll_append (literals : Literals) (frame : HostFrame) (es es' : List HostExpr) :
    evalHostAll literals frame (es ++ es') = (do
      let (vs, frame) ← evalHostAll literals frame es
      let (vs', frame) ← evalHostAll literals frame es'
      return (vs ++ vs', frame)) := by
  induction es generalizing frame with
  | nil =>
    rw [List.nil_append, evalHostAll]
    simp only [bind, Except.bind]
    cases evalHostAll literals frame es' <;> rfl
  | cons e es ih =>
    rw [List.cons_append, evalHostAll, evalHostAll]
    simp only [bind, Except.bind, ih]
    cases evalHost literals frame e with
    | error fault => rfl
    | ok r =>
      simp only
      cases evalHostAll literals r.2 es with
      | error fault => rfl
      | ok s =>
        simp only [pure, Except.pure]
        cases evalHostAll literals s.2 es' <;> rfl

/-- What the tree of an expression does, whatever the environment. -/
def TreeSimulates (w : HostWriter) (angles : Angles) (e : Expr) : Prop :=
  ∀ env frame, Agrees w angles env frame →
    Simulates (SameValue w angles) (evalExpr angles env e) (evalHost .asDoubles frame (w.tree e))

theorem evalArgs_simulates {f : Builtin} {es : List Expr} (h : ∀ e ∈ es, TreeSimulates w angles e)
    (place : Nat) (env : Env Float Bool) (frame : HostFrame) (hagrees : Agrees w angles env frame) :
    Simulates (SameNumbers w angles es.length) (evalArgs angles env f place es)
      (evalHostAll .asDoubles frame (w.trees es)) := by
  induction es generalizing place env frame with
  | nil =>
    rw [evalArgs, trees, evalHostAll]
    exact .ok ⟨rfl, rfl, hagrees⟩
  | cons e es ih =>
    rw [evalArgs, trees, evalHostAll]
    refine (h e (List.mem_cons_self ..) env frame hagrees).bind_value ?_
    intro v env frame hagrees
    -- an argument that is no number is another error than an unbound variable
    cases v with
    | scalar x =>
      refine (ih (fun e he => h e (List.mem_cons_of_mem _ he)) (place + 1) env frame hagrees).bind ?_
      rintro ⟨xs, env⟩ ⟨us, frame⟩ ⟨hlength, hxs, hagrees⟩
      obtain rfl : us = xs.map (.real .array) := hxs
      exact .ok ⟨congrArg (· + 1) hlength, rfl, hagrees⟩
    | _ => exact .error (by simp) _

theorem evalAll_simulates {es : List Expr} (h : ∀ e ∈ es, TreeSimulates w angles e)
    (env : Env Float Bool) (frame : HostFrame) (hagrees : Agrees w angles env frame) :
    Simulates (SameValues w angles es.length) (evalAll angles env es)
      (evalHostAll .asDoubles frame (es.map w.tree)) := by
  induction es generalizing env frame with
  | nil =>
    rw [evalAll, List.map_nil, evalHostAll]
    exact .ok ⟨rfl, rfl, hagrees⟩
  | cons e es ih =>
    rw [evalAll, List.map_cons, evalHostAll]
    refine (h e (List.mem_cons_self ..) env frame hagrees).bind_value ?_
    intro v env frame hagrees
    refine (ih (fun e he => h e (List.mem_cons_of_mem _ he)) env frame hagrees).bind ?_
    rintro ⟨vs, env⟩ ⟨us, frame⟩ ⟨hlength, hvs, hagrees⟩
    obtain rfl : us = vs.map Value.toHost := hvs
    exact .ok ⟨congrArg (· + 1) hlength, rfl, hagrees⟩

/-! ### Nodes -/

section Nodes

variable {env : Env Float Bool} {frame : HostFrame}

/-- A variable that is stepped, in the host. -/
theorem evalHost_stepped (hagrees : Agrees w angles env frame) {name : String} (hn : IsName name)
    (op : StepOp) {x : Float} (hx : env.get? name = some (.scalar x)) :
    evalHost .asDoubles frame (w.stepped name op) = .ok (.real .array (op.apply x), frame) := by
  have hget : frame.get .asDoubles (w.variableText name) = .ok (.real .array x) :=
    hagrees.get_bound hn hx
  cases op <;>
    simp only [stepped, StepOp.toBinOp, evalHost, hget, bind, Except.bind, pure, Except.pure] <;> rfl

theorem number_simulates (value : Float) : TreeSimulates w angles (.number value) := by
  intro env frame hagrees
  rw [evalExpr, tree, evalHost_numberTree hagrees.toHolds]
  exact .ok ⟨rfl, hagrees⟩

theorem negate_simulates {operand : Expr} (h : TreeSimulates w angles operand) :
    TreeSimulates w angles (.negate operand) := by
  intro env frame hagrees
  rw [evalExpr, tree, evalHost]
  refine (h env frame hagrees).bind_value ?_
  intro v env frame hagrees
  cases v with
  | scalar x => exact .ok ⟨rfl, hagrees⟩
  | _ => exact .error (by simp) _

theorem conditional_simulates {c t f : Expr} (hc : TreeSimulates w angles c)
    (ht : TreeSimulates w angles t) (hf : TreeSimulates w angles f) :
    TreeSimulates w angles (.conditional c t f) := by
  intro env frame hagrees
  rw [evalExpr, tree, evalHost]
  refine (hc env frame hagrees).bind_value ?_
  intro v env frame hagrees
  cases v with
  | boolean b =>
    cases b with
    | true => exact ht env frame hagrees
    | false => exact hf env frame hagrees
  | _ => exact .error (by simp) _

/-- A row of two operands. -/
theorem evalHost_compare (literals : Literals) (frame : HostFrame) (op : BinOp)
    (lhs rhs : HostExpr) :
    evalHost literals frame (.compare [lhs, rhs] [op]) = (do
      let (u, frame) ← evalHost literals frame lhs
      let (u', frame) ← evalHost literals frame rhs
      return (← u.compare op u', frame)) := by
  simp only [evalHost, evalRow, bind, Except.bind]
  cases evalHost literals frame lhs with
  | error fault => rfl
  | ok r =>
    simp only
    cases evalHost literals r.2 rhs with
    | error fault => rfl
    | ok r' =>
      simp only
      cases r.1.compare op r'.1 with
      | error fault => rfl
      | ok u => simp only [ite_self, pure, Except.pure]

/-- An operator that evaluates both operands, in the host. -/
theorem evalHost_operator {op : BinOp} (hop : op.connective? = none) (literals : Literals)
    (frame : HostFrame) (lhs rhs : Expr) :
    evalHost literals frame (w.tree (.binary op lhs rhs)) = (do
      let (u, frame) ← evalHost literals frame (w.tree lhs)
      let (u', frame) ← evalHost literals frame (w.tree rhs)
      return (← u.operate op u', frame)) := by
  rw [tree]
  by_cases hrank : (operator op).2 = comparisonRank
  · rw [if_pos hrank, evalHost_compare]
    simp only [HostValue.operate, if_pos hrank]
  · simp only [HostValue.operate, if_neg hrank]
    rw [evalHost]
    · rintro rfl
      cases hop
    · rintro rfl
      cases hop

theorem applyBinary_ne_unbound {op : BinOp} {v v' : Value Float Bool} {name : String} :
    applyBinary op v v' ≠ .error (.unbound name) := by
  rw [applyBinary.eq_def]
  split
  · split <;> simp
  · split <;> simp
  · simp

theorem operator_simulates {op : BinOp} {lhs rhs : Expr} (hop : op.connective? = none)
    (hl : TreeSimulates w angles lhs) (hr : TreeSimulates w angles rhs) :
    TreeSimulates w angles (.binary op lhs rhs) := by
  intro env frame hagrees
  rw [evalExpr, evalHost_operator hop]
  refine (hl env frame hagrees).bind_value ?_
  intro v env frame hagrees
  simp only [hop]
  refine (hr env frame hagrees).bind_value ?_
  intro v' env frame hagrees
  simp only
  cases hresult : applyBinary op v v' with
  | ok r =>
    rw [HostValue.applyBinary_toHost hresult]
    exact .ok ⟨rfl, hagrees⟩
  | error e => exact .error (fun name he => applyBinary_ne_unbound (he ▸ hresult)) _

/-- A connective yields one of its operands. -/
theorem connective_simulates {connective : Connective} {lhs rhs : Expr}
    (hl : TreeSimulates w angles lhs) (hr : TreeSimulates w angles rhs) :
    TreeSimulates w angles (.binary connective.toBinOp lhs rhs) := by
  intro env frame hagrees
  -- what is left when the right operand decides: its value, if that is a truth value
  have hright (b : Bool) (hb : connective.apply b = id) (env : Env Float Bool) (frame : HostFrame)
      (hagrees : Agrees w angles env frame) :
      Simulates (SameValue w angles)
        (do
          let (v', env) ← evalExpr angles env rhs
          return (← applyConnective connective b v', env))
        (evalHost .asDoubles frame (w.tree rhs)) := by
    rw [← bind_pure (evalHost .asDoubles frame (w.tree rhs))]
    refine (hr env frame hagrees).bind_value ?_
    intro v' env frame hagrees
    cases v' with
    | boolean b' =>
      have hvalue : applyConnective (σ := Float) connective b (.boolean b') = .ok (.boolean b') :=
        congrArg (fun f : Bool → Bool => Except.ok (Value.boolean (f b'))) hb
      simp only [hvalue]
      exact .ok ⟨rfl, hagrees⟩
    | _ => exact .error (by simp) _
  cases connective with
  | and =>
    rw [evalExpr, tree, if_neg (by decide), Connective.toBinOp, evalHost]
    refine (hl env frame hagrees).bind_value ?_
    intro v env frame hagrees
    -- a false left operand is the result on both sides
    cases v with
    | boolean b =>
      cases b with
      | true => exact hright true rfl env frame hagrees
      | false => exact .ok ⟨rfl, hagrees⟩
    | _ => exact .error (by simp) _
  | or =>
    rw [evalExpr, tree, if_neg (by decide), Connective.toBinOp, evalHost]
    refine (hl env frame hagrees).bind_value ?_
    intro v env frame hagrees
    -- and here a true one
    cases v with
    | boolean b =>
      cases b with
      | true => exact .ok ⟨rfl, hagrees⟩
      | false => exact hright false rfl env frame hagrees
    | _ => exact .error (by simp) _

theorem spreadArguments_of_variadic {f : Builtin} (hf : f.variadic = true) (vs : List HostValue) :
    spreadArguments f [.list vs] = .ok vs := by
  cases f <;> first | rfl | cases hf

theorem spreadArguments_of_not_variadic {f : Builtin} (hf : ¬f.variadic = true)
    (vs : List HostValue) : spreadArguments f vs = .ok vs := by
  cases f <;> first | rfl | exact absurd rfl hf

/-- A call, in the host: a combinator takes its arguments as one list, and a turn takes its angle
behind them. -/
theorem evalHost_call (hagrees : Agrees w angles env frame) (literals : Literals) (f : Builtin)
    (args : List Expr) :
    evalHost literals frame (w.tree (.call f args)) = (do
      let (vs, frame) ← evalHostAll literals frame (w.trees args)
      let (extra, frame) ← evalHostAll literals frame (extraTrees f)
      return (← callBuiltin f (vs ++ extra), frame)) := by
  rw [tree, evalHost, hagrees.callee_name f, evalHostAll_append]
  simp only [bind, Except.bind]
  by_cases hv : f.variadic = true
  · -- the combinators take no angle
    have hextra : extraTrees f = [] := by cases f <;> first | rfl | cases hv
    simp only [gathered_eq, if_pos hv, hextra, evalHostAll, evalHost, bind, Except.bind, pure, Except.pure]
    cases evalHostAll literals frame (w.trees args) with
    | error fault => rfl
    | ok r =>
      simp only [List.append_nil, spreadArguments_of_variadic hv]
  · simp only [gathered_eq, if_neg hv]
    cases evalHostAll literals frame (w.trees args) with
    | error fault => rfl
    | ok r =>
      simp only
      cases evalHostAll literals r.2 (extraTrees f) with
      | error fault => rfl
      | ok s => simp only [pure, Except.pure, spreadArguments_of_not_variadic hv]

include angles in
theorem evalHost_extraTrees (hw : ¬Clashes w.functionName)
    (hagrees : Agrees w angles env frame) (literals : Literals) (f : Builtin) :
    evalHostAll literals frame (extraTrees f) =
      .ok ((f.hostExtra angles).map (.real .array), frame) := by
  have hget0 : frame.get literals "a0" = .ok (.real .array angles.a0) := by
    have hgiven : "a0" ∈ givenNames := by decide
    rw [← variableText_given hw hgiven]
    exact hagrees.get_bound (isName_given hgiven) hagrees.first
  have hget1 : frame.get literals "a1" = .ok (.real .array angles.a1) := by
    have hgiven : "a1" ∈ givenNames := by decide
    rw [← variableText_given hw hgiven]
    exact hagrees.get_bound (isName_given hgiven) hagrees.second
  cases f <;> first
    | rfl
    | (simp only [extraTrees, evalHostAll, evalHost, hget0, bind, Except.bind, pure, Except.pure]
       rfl)
    | (simp only [extraTrees, evalHostAll, evalHost, hget1, bind, Except.bind, pure, Except.pure]
       rfl)

variable (hw : ¬Clashes w.functionName)
include hw

theorem variable_simulates {name : String} (hn : IsName name) :
    TreeSimulates w angles (.variable name) := by
  intro env frame hagrees
  rw [evalExpr, tree, evalHost]
  cases hv : env.get? name with
  | some v =>
    rw [hagrees.get_bound hn hv]
    exact .ok ⟨rfl, hagrees⟩
  | none =>
    obtain ⟨fault, hf, hfault⟩ := hagrees.get_unbound hw hn hv
    rw [hf]
    exact ⟨fault, rfl, hfault⟩

theorem call_simulates {f : Builtin} {args : List Expr} (h : ∀ e ∈ args, TreeSimulates w angles e) :
    TreeSimulates w angles (.call f args) := by
  intro env frame hagrees
  rw [evalExpr, evalHost_call hagrees]
  by_cases harity : f.arity.accepts args.length = true
  · rw [if_pos harity]
    refine (evalArgs_simulates h 1 env frame hagrees).bind ?_
    rintro ⟨xs, env⟩ ⟨us, frame⟩ ⟨hlength, hxs, hagrees⟩
    obtain rfl : us = xs.map (.real .array) := hxs
    change xs.length = args.length at hlength
    rw [← hlength] at harity
    simp only [evalHost_extraTrees hw hagrees, bind, Except.bind]
    -- a call that fails in the program may do anything in the host
    cases hv : applyBuiltin (β := Bool) angles f xs with
    | error e => exact .error (by simp) _
    | ok v =>
      have hcall := callBuiltin_toHost harity hv
      rw [List.map_append] at hcall
      rw [hcall]
      exact .ok ⟨rfl, hagrees⟩
  · rw [if_neg harity]
    exact .error (by simp) _

theorem step_simulates {name : String} (hn : IsName name) (op : StepOp) :
    TreeSimulates w angles (.step name op) := by
  intro env frame hagrees
  rw [evalExpr, tree, evalHost]
  cases hv : env.get? name with
  | none =>
    obtain ⟨fault, hf, hfault⟩ :
        ∃ fault, frame.get .asDoubles (w.variableText name) = .error fault ∧ fault.IsUnbound :=
      hagrees.get_unbound hw hn hv
    refine ⟨fault, ?_, hfault⟩
    cases op <;> simp only [stepped, StepOp.toBinOp, evalHost, hf, bind, Except.bind]
  | some v =>
    cases v with
    | scalar x =>
      rw [evalHost_stepped hagrees hn op hv]
      by_cases hr : readOnlyNames.contains name = true
      · -- the program may not step a coordinate, whatever the host does
        simp only [assign, hr, if_true]
        exact .error (by simp) _
      · simp only [assign, hr]
        have hr' : name ∉ readOnlyNames := fun hm => hr (List.contains_iff_mem.mpr hm)
        exact .ok ⟨rfl, hagrees.set hn hr' (.scalar (op.apply x))⟩
    | _ => exact .error (by simp) _

/-- The tree of an expression does what the expression does. -/
theorem tree_simulates {e : Expr} (hn : e.Named) : TreeSimulates w angles e := by
  induction e using Expr.induction with
  | number value => exact number_simulates value
  | name name => exact variable_simulates hw hn
  | negate operand ih => exact negate_simulates (ih hn)
  | binary op lhs rhs ihl ihr =>
    cases hop : op.connective? with
    | none => exact operator_simulates hop (ihl hn.1) (ihr hn.2)
    | some connective =>
      obtain rfl : op = connective.toBinOp := by cases op <;> cases hop <;> rfl
      exact connective_simulates (ihl hn.1) (ihr hn.2)
  | conditional c t f ihc iht ihf =>
    exact conditional_simulates (ihc hn.1) (iht hn.2.1) (ihf hn.2.2)
  | call f args ih => exact call_simulates hw fun e he => ih e he (namedAll_iff.mp hn e he)
  | step name op => exact step_simulates hw hn op
  | misplaced display => exact hn.elim

end Nodes

end HostWriter

end FieldLang
