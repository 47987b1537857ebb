/-
Functions of the host language as trees.

* `HostExpr` : an expression;
* `HostStmt` : a line of a function;
* `HostFunction` : a function, with the names of its parameters;
* `HostFunction.locals` : the names that a function binds anywhere.

Design notes: comparisons in a row are one node, because the host chains them. A name that
a function binds anywhere belongs to the function everywhere.
-/
import FieldLang.Syntax.Tree

namespace FieldLang

/-- An expression of the host language. -/
inductive HostExpr where
  /-- A literal without a point and without an exponent. -/
  | whole (n : Nat)
  | real (x : Float)
  | name (name : String)
  | negate (operand : HostExpr)
  /-- An operator that is no comparison. -/
  | binary (op : BinOp) (lhs rhs : HostExpr)
  /-- A row of comparisons, with an operator between any two operands. -/
  | compare (operands : List HostExpr) (ops : List BinOp)
  | conditional (ifTrue condition ifFalse : HostExpr)
  | call (function : String) (args : List HostExpr)
  | list (items : List HostExpr)
  | tuple (items : List HostExpr)
  /-- Binds a name to a value and yields the value. -/
  | bind (name : String) (value : HostExpr)
deriving Repr, BEq, Inhabited

/-- What is assigned to. -/
inductive HostTarget where
  | name (name : String)
  | names (names : List String)
deriving Repr, DecidableEq

/-- The names of a target. -/
def HostTarget.toList : HostTarget → List String
  | .name n => [n]
  | .names ns => ns

/-- A line of a function. -/
inductive HostStmt where
  | assign (target : HostTarget) (value : HostExpr)
  | expr (value : HostExpr)
  | return (value : Option HostExpr)
deriving Repr, BEq

/-- A function of the host language. -/
structure HostFunction where
  name : String
  parameters : List String
  body : List HostStmt
deriving Repr, BEq

mutual

/-- The names that an expression binds. -/
def HostExpr.bound : HostExpr → List String
  | .whole _ | .real _ | .name _ => []
  | .negate operand => operand.bound
  | .binary _ lhs rhs => lhs.bound ++ rhs.bound
  | .compare operands _ => boundByAll operands
  | .conditional ifTrue condition ifFalse => ifTrue.bound ++ condition.bound ++ ifFalse.bound
  | .call _ args => boundByAll args
  | .list items => boundByAll items
  | .tuple items => boundByAll items
  | .bind name value => name :: value.bound

/-- The names that a row of expressions binds. -/
def boundByAll : List HostExpr → List String
  | [] => []
  | e :: es => e.bound ++ boundByAll es

end

/-- The names that a line binds. -/
def HostStmt.bound : HostStmt → List String
  | .assign target value => target.toList ++ value.bound
  | .expr value => value.bound
  | .return value => (value.map HostExpr.bound).getD []

/-- The names that belong to a function. -/
def HostFunction.locals (f : HostFunction) : List String :=
  f.parameters ++ f.body.flatMap HostStmt.bound

end FieldLang
