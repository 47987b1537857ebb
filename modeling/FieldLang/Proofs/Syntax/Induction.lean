/-
Induction over expressions and statements.

* `Expr.induction`, `Stmt.induction` : one case for each node, with a hypothesis for every
  argument of a call and for every statement of a block.
-/
import FieldLang.Syntax.Tree

namespace FieldLang

/-- Induction over an expression. -/
@[elab_as_elim]
theorem Expr.induction {motive : Expr → Prop}
    (number : ∀ value, motive (.number value))
    (name : ∀ name, motive (.variable name))
    (binary : ∀ op lhs rhs, motive lhs → motive rhs → motive (.binary op lhs rhs))
    (negate : ∀ operand, motive operand → motive (.negate operand))
    (call : ∀ f args, (∀ e ∈ args, motive e) → motive (.call f args))
    (conditional : ∀ condition ifTrue ifFalse, motive condition → motive ifTrue →
      motive ifFalse → motive (.conditional condition ifTrue ifFalse))
    (step : ∀ name op, motive (.step name op))
    (misplaced : ∀ display, motive (.misplaced display)) : ∀ e, motive e := by
  intro e
  refine @Expr.rec motive (fun es => ∀ e ∈ es, motive e)
    number name binary negate call conditional step misplaced ?_ ?_ e
  · intro e h
    simp at h
  · intro first rest ihFirst ihRest e h
    rcases List.mem_cons.mp h with rfl | h
    · exact ihFirst
    · exact ihRest e h

/-- Induction over a statement. -/
@[elab_as_elim]
theorem Stmt.induction {motive : Stmt → Prop}
    (assign : ∀ name value, motive (.assign name value))
    (unpack : ∀ names value, motive (.unpack names value))
    (assignEach : ∀ names values, motive (.assignEach names values))
    (block : ∀ statements, (∀ s ∈ statements, motive s) → motive (.block statements))
    (result : ∀ value, motive (.result value))
    (empty : motive .empty)
    (misplaced : ∀ display, motive (.misplaced display)) : ∀ s, motive s := by
  intro s
  refine @Stmt.rec motive (fun ss => ∀ s ∈ ss, motive s)
    assign unpack assignEach block result empty misplaced ?_ ?_ s
  · intro s h
    simp at h
  · intro first rest ihFirst ihRest s h
    rcases List.mem_cons.mp h with rfl | h
    · exact ihFirst
    · exact ihRest s h

end FieldLang
