/-
Programs written in their own language.

The canonical text of a program has one spelling for every function, single spaces around
operators, brackets only where the operators need them, and a comma between statements.

* `Canonical.expr`, `Canonical.statement`, `Canonical.document` : the text as a document;
* `unparse` : the text in a given width.

Design notes: a negative literal is written as a minus and its magnitude, and read back as
a negation. Two minus signs in a row would be read as a step, so a negation in a negation is
bracketed, and so is a step that stands alone as a statement. Trees of any depth are written, where a
host with a bounded stack fails for deep ones.
-/
import FieldLang.Writing.Error

namespace FieldLang

namespace Canonical

open Layout Writing

/-- The rank of the conditional. -/
def conditionalRank : Nat := 1

/-- The digits of a finite number that is not negative. -/
def decimalText (value : Float) : String :=
  match Decimal.parts value with
  | .finite _ mag =>
    if isShortWhole mag then String.ofList (Decimal.wholeText mag)
    else String.ofList (Decimal.shortest mag).positional
  | _ => String.ofList (Decimal.literal value)

/-- A literal. -/
def number (value : Float) : Written Ranked :=
  if !Decimal.isFinite value then .error (.unspeakable value)
  else if Decimal.signBit value then
    .ok ⟨.text ("-" ++ decimalText value), signPower⟩
  else .ok (atom (decimalText value))

/-- Whether the text of an expression begins with a minus. -/
def startsWithMinus : Expr → Bool
  | .negate _ => true
  | .number value => Decimal.signBit value
  | _ => false

mutual

/-- The text of an expression, and its rank. -/
def expr : Expr → Written Ranked
  | .number value => number value
  | .variable name => .ok (atom name)
  | .negate operand => do
    let inner := (← expr operand).within signPower
    let inner := if startsWithMinus operand then .concat [.text "(", inner, .text ")"] else inner
    return ⟨.concat [.text "-", inner], signPower⟩
  | .binary op lhs rhs => do
    let rank := op.precedence
    let left := (← expr lhs).within (if op.rightAssociative then rank + 1 else rank)
    let right := (← expr rhs).within (if op.rightAssociative then rank else rank + 1)
    return ⟨.concat [left, .text (" " ++ op.spelling ++ " "), right], rank⟩
  | .conditional condition ifTrue ifFalse => do
    let condition := (← expr condition).within (conditionalRank + 1)
    let ifTrue := (← expr ifTrue).within 0
    let ifFalse := (← expr ifFalse).within conditionalRank
    return ⟨.concat [condition, .text " ? ", ifTrue, .text " : ", ifFalse], conditionalRank⟩
  | .call f args => do
    let args ← exprs args
    let args := if f.variadic then [Doc.bracketed "[" args "]" indentation] else args
    return ⟨Doc.bracketed (f.mnemonic ++ "(") args ")" indentation, atomRank⟩
  | .step name op => .ok (atom (name ++ op.spelling))
  | .misplaced display => .error (.notExpression display)

/-- The texts of expressions in places that take any expression. -/
def exprs : List Expr → Written (List Doc)
  | [] => .ok []
  | e :: es => do
    let first := (← expr e).within 0
    return first :: (← exprs es)

end

/-- Names between square brackets. -/
def nameList (names : List String) : Doc := .text ("[" ++ ", ".intercalate names ++ "]")

/-- The text of a statement that is no block. -/
def statement : Stmt → Written Doc
  | .empty => .ok (.text "")
  | .result (.step name op) => do
    return .concat [.text "(", (← expr (.step name op)).within 0, .text ")"]
  | .result value => do return (← expr value).within 0
  | .assign name value => do
    return .concat [.text name, .text " = ", (← expr value).within 0]
  | .unpack names value => do
    return .concat [nameList names, .text " = ", (← expr value).within 0]
  | .assignEach names values => do
    let values := Doc.bracketed "[" (← exprs values) "]" indentation
    return .concat [nameList names, .text " = ", values]
  | .block statements => .error (.notStatement (Stmt.block statements).display)
  | .misplaced display => .error (.notStatement display)

/-- Whether the last statement is empty. -/
def endsEmpty (statements : List Stmt) : Bool :=
  match statements.getLast? with
  | some .empty => true
  | _ => false

/-- A program as a document. A last empty statement needs a separator of its own, because the
last separator is dropped when the text is read. -/
def document (s : Stmt) : Written Doc := do
  let statements := s.flatten
  let docs ← statements.mapM statement
  let docs := if endsEmpty statements then docs ++ [.text ""] else docs
  return .group (Doc.joined (.concat [.text ",", Doc.space]) docs)

end Canonical

/-- The canonical text of a program, within `width` columns where possible. -/
def unparse (width : Int) (s : Stmt) : Written (List Char) := do
  let doc ← Canonical.document s
  (doc.render width).mapError .badWidth

end FieldLang
