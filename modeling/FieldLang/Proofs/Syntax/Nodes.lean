/-
The nodes of expressions and statements.

* `Expr.nodes`, `Stmt.nodes` : every expression that stands somewhere in a tree;
* `Expr.Steps` : an expression has a step of a variable.
-/
import FieldLang.Proofs.Syntax.Induction

namespace FieldLang

mutual

/-- An expression and all expressions in it. -/
@[simp] def Expr.nodes : Expr → List Expr
  | .binary op lhs rhs => .binary op lhs rhs :: (lhs.nodes ++ rhs.nodes)
  | .negate operand => .negate operand :: operand.nodes
  | .call f args => .call f args :: nodesAll args
  | .conditional condition ifTrue ifFalse =>
    .conditional condition ifTrue ifFalse :: (condition.nodes ++ ifTrue.nodes ++ ifFalse.nodes)
  | e => [e]

/-- The nodes of expressions in a row. -/
@[simp] def nodesAll : List Expr → List Expr
  | [] => []
  | e :: es => e.nodes ++ nodesAll es

end

mutual

/-- All expressions in a statement. -/
@[simp] def Stmt.nodes : Stmt → List Expr
  | .assign _ value | .unpack _ value | .result value => value.nodes
  | .assignEach _ values => nodesAll values
  | .block statements => statementsNodes statements
  | .empty | .misplaced _ => []

/-- All expressions in statements in a row. -/
@[simp] def statementsNodes : List Stmt → List Expr
  | [] => []
  | s :: ss => s.nodes ++ statementsNodes ss

end

@[simp] theorem mem_nodesAll {e : Expr} {es : List Expr} :
    e ∈ nodesAll es ↔ ∃ e' ∈ es, e ∈ e'.nodes := by
  induction es with
  | nil => simp [nodesAll]
  | cons first rest ih => simp [nodesAll, ih]

@[simp] theorem mem_statementsNodes {e : Expr} {ss : List Stmt} :
    e ∈ statementsNodes ss ↔ ∃ s ∈ ss, e ∈ s.nodes := by
  induction ss with
  | nil => simp [statementsNodes]
  | cons first rest ih => simp [statementsNodes, ih]

theorem Expr.mem_nodes_self (e : Expr) : e ∈ e.nodes := by
  cases e <;> simp [nodes]

/-- An expression has a step of a variable. -/
def Expr.Steps (e : Expr) (name : String) : Prop :=
  ∃ op, .step name op ∈ e.nodes

section Steps

variable {name other : String}

@[simp] theorem Expr.not_steps_number {value : Float} : ¬ (Expr.number value).Steps name := by
  simp [Steps, nodes]

@[simp] theorem Expr.not_steps_variable : ¬ (Expr.variable name).Steps other := by
  simp [Steps, nodes]

@[simp] theorem Expr.steps_step {op : StepOp} : (Expr.step name op).Steps other ↔ name = other := by
  simp [Steps, nodes, eq_comm]

@[simp] theorem Expr.steps_binary {op : BinOp} {lhs rhs : Expr} :
    (Expr.binary op lhs rhs).Steps name ↔ lhs.Steps name ∨ rhs.Steps name := by
  simp [Steps, nodes, exists_or]

@[simp] theorem Expr.steps_negate {operand : Expr} :
    (Expr.negate operand).Steps name ↔ operand.Steps name := by
  simp [Steps, nodes]

@[simp] theorem Expr.steps_call {f : Builtin} {args : List Expr} :
    (Expr.call f args).Steps name ↔ ∃ e ∈ args, e.Steps name := by
  simp only [Steps, nodes, List.mem_cons, reduceCtorEq, false_or, mem_nodesAll]
  exact ⟨fun ⟨op, e, he, hop⟩ => ⟨e, he, op, hop⟩, fun ⟨e, he, op, hop⟩ => ⟨op, e, he, hop⟩⟩

@[simp] theorem Expr.steps_conditional {c t f : Expr} :
    (Expr.conditional c t f).Steps name ↔ c.Steps name ∨ t.Steps name ∨ f.Steps name := by
  simp [Steps, nodes, exists_or]

end Steps

end FieldLang
