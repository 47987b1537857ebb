/-
Programs as trees.

* `BinOp`, `StepOp` : the operators, with their spellings and binding powers;
* `Expr`, `Stmt` : expressions and statements;
* `Stmt.flatten` : the simple statements of a statement, in order;
* `Program` : the statements of a source text.

Design notes: a tree handed in from outside may have a statement where an expression
belongs, or the other way round. Such a node is a leaf that only knows how it is displayed;
nothing but an error message looks at it.
-/
import FieldLang.Syntax.Builtin

namespace FieldLang

/-- A binary operator. -/
inductive BinOp where
  | add | sub | mul | div
  | eq | notEq | greater | greaterEq | less | lessEq
  | and | or | pow
deriving Repr, DecidableEq

namespace BinOp

/-- Every binary operator. -/
def all : List BinOp :=
  [add, sub, mul, div, eq, notEq, greater, greaterEq, less, lessEq, and, or, pow]

/-- The spelling in programs. -/
def spelling : BinOp → String
  | add => "+" | sub => "-" | mul => "*" | div => "/"
  | eq => "==" | notEq => "!=" | greater => ">" | greaterEq => ">=" | less => "<"
  | lessEq => "<=" | and => "&&" | or => "||" | pow => "**"

/-- The name in upper case. -/
def tag : BinOp → String
  | add => "ADD" | sub => "SUB" | mul => "MUL" | div => "DIV"
  | eq => "EQ" | notEq => "NOT_EQ" | greater => "GREATER" | greaterEq => "GREATER_EQ"
  | less => "LESS" | lessEq => "LESS_EQ" | and => "AND" | or => "OR" | pow => "POW"

/-- The operator with a given tag. -/
def ofTag? (tag : String) : Option BinOp := all.find? fun op => op.tag == tag

/-- How tightly an operator binds the expression on its left. A left power below the right
one makes the operator associate to the left. -/
def leftPower : BinOp → Nat
  | or => 3 | and => 5
  | eq | notEq => 7
  | greater | greaterEq | less | lessEq => 9
  | add | sub => 11
  | mul | div => 13
  | pow => 16

/-- How tightly an operator binds the expression on its right. -/
def rightPower : BinOp → Nat
  | or => 4 | and => 6
  | eq | notEq => 8
  | greater | greaterEq | less | lessEq => 10
  | add | sub => 12
  | mul | div => 14
  | pow => 15

/-- The rank of an operator: a higher one binds tighter. -/
def precedence (op : BinOp) : Nat := Nat.min op.leftPower op.rightPower

/-- Powers associate to the right, all other operators to the left. -/
def rightAssociative : BinOp → Bool
  | pow => true
  | _ => false

end BinOp

/-- How tightly the conditional binds the condition on its left. -/
def conditionPower : Nat := 2

/-- How tightly the conditional binds the branch on its right. -/
def branchPower : Nat := 1

/-- How tightly a sign binds its operand. -/
def signPower : Nat := 17

/-- A step of a variable by one. -/
inductive StepOp where
  | increment | decrement
deriving Repr, DecidableEq

namespace StepOp

/-- The spelling in programs. -/
def spelling : StepOp → String
  | increment => "++"
  | decrement => "--"

/-- The name in upper case. -/
def tag : StepOp → String
  | increment => "INCREMENT"
  | decrement => "DECREMENT"

/-- The step with a given tag. -/
def ofTag? (tag : String) : Option StepOp := [increment, decrement].find? fun op => op.tag == tag

/-- The operator that steps by one. -/
def toBinOp : StepOp → BinOp
  | increment => .add
  | decrement => .sub

end StepOp

/-- An expression. -/
inductive Expr where
  | number (value : Float)
  | variable (name : String)
  | binary (op : BinOp) (lhs rhs : Expr)
  | negate (operand : Expr)
  | call (f : Builtin) (args : List Expr)
  | conditional (condition ifTrue ifFalse : Expr)
  /-- Rebinds a variable to its value plus or minus one and yields the new value. -/
  | step (name : String) (op : StepOp)
  /-- A node that is no expression, as it is displayed. -/
  | misplaced (display : String)
deriving Repr, BEq, Inhabited

/-- A statement. -/
inductive Stmt where
  | assign (name : String) (value : Expr)
  /-- Binds each name to a component of one vector. -/
  | unpack (names : List String) (value : Expr)
  /-- Binds each name to the expression at its place. -/
  | assignEach (names : List String) (values : List Expr)
  | block (statements : List Stmt)
  /-- An expression that stands as a statement. -/
  | result (value : Expr)
  | empty
  /-- A node that is no statement, as it is displayed. -/
  | misplaced (display : String)
deriving Repr, BEq, Inhabited

mutual

/-- The statements that are no blocks, in the order in which they run. -/
def Stmt.flatten : Stmt → List Stmt
  | .block statements => flattenAll statements
  | s => [s]

/-- The statements of a row of statements that are no blocks. -/
def flattenAll : List Stmt → List Stmt
  | [] => []
  | s :: rest => s.flatten ++ flattenAll rest

end

/-- A program is a row of statements. -/
abbrev Program := List Stmt

/-- Names that programs read and never assign. -/
def readOnlyNames : List String := ["a0", "a1"]

end FieldLang
