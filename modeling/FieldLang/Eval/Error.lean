/-
Why a program has no value.

* `EvalError` : the reasons;
* `EvalError.message` : their wording.
-/
import FieldLang.Eval.Value
import FieldLang.Syntax.Tree
import FieldLang.Text.Quoted

namespace FieldLang

/-- Why a program has no value. -/
inductive EvalError where
  | noExpression
  | resultKind (kind : Kind)
  | unbound (name : String)
  | readOnly (name : String)
  | unpackKind (kind : Kind) (names : List String)
  | negatedKind (kind : Kind)
  | conditionKind (kind : Kind)
  | branchKinds (ifTrue ifFalse : Kind)
  | steppedKind (op : StepOp) (name : String) (kind : Kind)
  /-- The right operand is unknown when the left one alone is wrong. -/
  | operandKinds (op : BinOp) (lhs : Kind) (rhs : Option Kind)
  | arity (f : Builtin) (count : Nat)
  | argumentKind (f : Builtin) (place : Nat) (kind : Kind)
  | call (error : CallError)
  | notExpression (display : String)
  | notStatement (display : String)
deriving Repr, DecidableEq

/-- The wording of an error. -/
def EvalError.message : EvalError → String
  | noExpression => "Program did not evaluate any expression"
  | resultKind kind => "Program result must be a scalar, got " ++ kind.name
  | unbound name => "Variable " ++ Text.quote name ++ " is not bound"
  | readOnly name => "Cannot assign to read-only parameter " ++ Text.quote name
  | unpackKind kind names =>
    "Cannot unpack " ++ kind.name ++ " value into " ++ toString names.length ++ " names ["
      ++ ", ".intercalate names ++ "]"
  | negatedKind kind => "Unary '-' needs a scalar operand, got " ++ kind.name
  | conditionKind kind => "Condition of '?:' must be boolean, got " ++ kind.name
  | branchKinds ifTrue ifFalse =>
    "Branches of '?:' differ in kind: " ++ ifTrue.name ++ " and " ++ ifFalse.name
  | steppedKind op name kind =>
    "'" ++ op.spelling ++ "' needs a scalar variable, " ++ Text.quote name ++ " is " ++ kind.name
  | operandKinds op lhs rhs =>
    "Operator '" ++ op.spelling ++ "' cannot be applied to " ++ lhs.name ++
      match rhs with
      | none => ""
      | some rhs => " and " ++ rhs.name
  | arity f count =>
    f.name ++ " takes " ++ f.arity.describe ++ " arguments, got " ++ toString count
  | argumentKind f place kind =>
    "Argument " ++ toString place ++ " of " ++ f.name ++ " must be a scalar, got " ++ kind.name
  | call e => e.message
  | notExpression display => "Not an expression: " ++ display
  | notStatement display => "Not a statement: " ++ display

end FieldLang
