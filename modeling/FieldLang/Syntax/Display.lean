/-
Trees displayed node by node.

Every node is shown by its name and its fields, a row of nodes between round brackets with
a comma after a single one, texts quoted, and numbers with their shortest digits.

* `Expr.display`, `Stmt.display` : the display of a node;
* `displayProgram` : the display of a program.
-/
import FieldLang.Decimal.Notation
import FieldLang.Syntax.Tree
import FieldLang.Text.Quoted

namespace FieldLang

/-- A row between round brackets; a comma follows a single item. -/
def displayRow (items : List String) : String :=
  match items with
  | [item] => "(" ++ item ++ ",)"
  | _ => "(" ++ ", ".intercalate items ++ ")"

/-- An operator or a function: its kind, its tag and its spelling. -/
def displayTag (kind tag spelling : String) : String :=
  "<" ++ kind ++ "." ++ tag ++ ": " ++ Text.quote spelling ++ ">"

mutual

/-- The display of an expression. -/
def Expr.display : Expr → String
  | .number value => "Number(value=" ++ String.ofList (Decimal.literal value) ++ ")"
  | .variable name => "Variable(name=" ++ Text.quote name ++ ")"
  | .binary op lhs rhs =>
    "BinaryOp(op=" ++ displayTag "BinOp" op.tag op.spelling ++ ", lhs=" ++ lhs.display
      ++ ", rhs=" ++ rhs.display ++ ")"
  | .negate operand => "Negate(operand=" ++ operand.display ++ ")"
  | .call f args =>
    "Function(name=" ++ displayTag "FunctionName" f.tag f.name ++ ", args="
      ++ displayRow (displayExprs args) ++ ")"
  | .conditional condition ifTrue ifFalse =>
    "TernaryOp(condition=" ++ condition.display ++ ", if_true=" ++ ifTrue.display
      ++ ", if_false=" ++ ifFalse.display ++ ")"
  | .step name op =>
    "AssignExpr(name=" ++ Text.quote name ++ ", op=" ++ displayTag "IncDec" op.tag op.spelling
      ++ ")"
  | .misplaced display => display

/-- The displays of a row of expressions. -/
def displayExprs : List Expr → List String
  | [] => []
  | e :: es => e.display :: displayExprs es

end

mutual

/-- The display of a statement. -/
def Stmt.display : Stmt → String
  | .assign name value => "Assign(name=" ++ Text.quote name ++ ", expr=" ++ value.display ++ ")"
  | .unpack names value =>
    "AssignToArray(names=" ++ displayRow (names.map Text.quote) ++ ", expr=" ++ value.display ++ ")"
  | .assignEach names values =>
    "AssignFromArray(names=" ++ displayRow (names.map Text.quote) ++ ", exprs="
      ++ displayRow (displayExprs values) ++ ")"
  | .block statements => "Sequence(statements=" ++ displayRow (displayStmts statements) ++ ")"
  | .result value => "Return(expr=" ++ value.display ++ ")"
  | .empty => "Empty()"
  | .misplaced display => display

/-- The displays of a row of statements. -/
def displayStmts : List Stmt → List String
  | [] => []
  | s :: ss => s.display :: displayStmts ss

end

/-- The display of a program. -/
def displayProgram (program : Program) : String := (Stmt.block program).display

end FieldLang
