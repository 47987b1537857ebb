/-
Programs written as functions of the host language.

The generated function takes a point and returns a distance. The two angle parameters are
bound first, every statement becomes one line, and the last one is followed by a return of
its value.

* `reservedWords` : names that a variable of a program cannot keep;
* `HostWriter` : the name of the function and the angles;
* `HostWriter.expr`, `HostWriter.statement`, `HostWriter.document` : the text as a document.

Design notes: the host ranks its operators differently. It chains comparisons, so a
comparison is never written bare inside another one, and its power binds tighter than a sign
on its left and looser than one on its right. Names that the host or its functions use get
an underscore.
-/
import FieldLang.Text.Identifier
import FieldLang.Writing.Error

namespace FieldLang

namespace Host

/-- The keywords of the host language. -/
def keywords : List String :=
  ["False", "None", "True", "and", "as", "assert", "async", "await", "break", "class",
   "continue", "def", "del", "elif", "else", "except", "finally", "for", "from", "global",
   "if", "import", "in", "is", "lambda", "nonlocal", "not", "or", "pass", "raise", "return",
   "try", "while", "with", "yield"]

/-- The words that are keywords of the host language in some places only. -/
def softKeywords : List String := ["_", "case", "match"]

/-- The names that generated code calls or reads without binding them. -/
def globalNames : List String := Builtin.all.map Builtin.name ++ ["inf", "nan"]

/-- The names that a variable cannot keep in any generated function. -/
def reservedWords : List String := keywords ++ softKeywords ++ globalNames

end Host

/-- What a generated function is called, and the angles that it holds. -/
structure HostWriter where
  functionName : String
  a0 : Float
  a1 : Float

namespace HostWriter

open Layout Writing Host

/-- The rank of a conditional. -/
def conditionalRank : Nat := 1

/-- The rank of a comparison. -/
def comparisonRank : Nat := 4

/-- The rank of a sign. -/
def signRank : Nat := 7

/-- The spelling and the rank of an operator. -/
def operator : BinOp → String × Nat
  | .or => ("or", 2)
  | .and => ("and", 3)
  | .eq => ("==", comparisonRank)
  | .notEq => ("!=", comparisonRank)
  | .greater => (">", comparisonRank)
  | .greaterEq => (">=", comparisonRank)
  | .less => ("<", comparisonRank)
  | .lessEq => ("<=", comparisonRank)
  | .add => ("+", 5)
  | .sub => ("-", 5)
  | .mul => ("*", 6)
  | .div => ("/", 6)
  | .pow => ("**", 8)

/-- The digits of a finite number that is not negative: an integer literal for a moderate
whole number. -/
def decimalText (value : Float) : String :=
  match Decimal.parts value with
  | .finite _ mag =>
    if isShortWhole mag then String.ofList (Decimal.wholeText mag)
    else String.ofList (Decimal.literal (Decimal.ofMagnitude mag))
  | _ => String.ofList (Decimal.literal value)

/-- A literal. -/
def number (value : Float) : Ranked :=
  match Decimal.parts value with
  | .nan => atom "nan"
  | .infinite false => atom "inf"
  | .infinite true => ⟨.text "-inf", signRank⟩
  | .finite false _ => atom (decimalText value)
  | .finite true _ => ⟨.text ("-" ++ decimalText value), signRank⟩

/-- The sign between a variable and its step. -/
def stepSign : StepOp → String
  | .increment => "+"
  | .decrement => "-"

variable (w : HostWriter)

/-- The spelling of a variable. -/
def variableText (name : String) : String :=
  if reservedWords.contains name || name == w.functionName then name ++ "_" else name

/-- The spelling of a variable that is assigned. -/
def target (name : String) : Written String :=
  if readOnlyNames.contains name then .error (.readOnly name) else .ok (w.variableText name)

/-- The spelling of variables that a tuple is assigned to. -/
def targets (names : List String) : Written Doc := do
  match ← names.mapM w.target with
  | [name] => return .text (name ++ ",")
  | names => return .text (", ".intercalate names)

/-- The arguments that the host function needs besides those of the program. -/
def extraArguments : Builtin → List Doc
  | .rot0 => [.text "a0"]
  | .rot1 => [.text "a1"]
  | _ => []

mutual

/-- The text of an expression, and its rank. -/
def expr : Expr → Written Ranked
  | .number value => .ok (number value)
  | .variable name => .ok (atom (w.variableText name))
  | .negate operand => do
    return ⟨.concat [.text "-", (← expr operand).within signRank], signRank⟩
  | .binary op lhs rhs => do
    let (spelling, rank) := operator op
    let (left, right) :=
      if rank = comparisonRank then (rank + 1, rank + 1)
      else if op = .pow then (rank + 1, signRank)
      else (rank, rank + 1)
    let lhs := (← expr lhs).within left
    let rhs := (← expr rhs).within right
    return ⟨.concat [lhs, .text (" " ++ spelling ++ " "), rhs], rank⟩
  | .conditional condition ifTrue ifFalse => do
    let condition := (← expr condition).within (conditionalRank + 1)
    let ifTrue := (← expr ifTrue).within (conditionalRank + 1)
    let ifFalse := (← expr ifFalse).within conditionalRank
    return ⟨.concat [ifTrue, .text " if ", condition, .text " else ", ifFalse], conditionalRank⟩
  | .call f args => do
    let args ← exprs args
    let args := if f.variadic then [Doc.bracketed "[" args "]" indentation] else args
    return ⟨Doc.bracketed (f.name ++ "(") (args ++ extraArguments f) ")" indentation, atomRank⟩
  | .step name op => do
    let name ← w.target name
    return atom ("(" ++ name ++ " := " ++ name ++ " " ++ stepSign op ++ " 1)")
  | .misplaced display => .error (.notExpression display)

/-- The texts of expressions in places that take any expression. -/
def exprs : List Expr → Written (List Doc)
  | [] => .ok []
  | e :: es => do
    let first := (← expr e).within 0
    return first :: (← exprs es)

end

/-- The line of a statement that is no block. -/
def statement : Stmt → Written Doc
  | .result (.step name op) => do
    let name ← w.target name
    return .text (name ++ " = " ++ name ++ " " ++ stepSign op ++ " 1")
  | .result value => do return (← w.expr value).within 0
  | .assign name value => do
    let name ← w.target name
    return .concat [.text name, .text " = ", (← w.expr value).within 0]
  | .unpack names value => do
    let names ← w.targets names
    return .concat [names, .text " = ", (← w.expr value).within 0]
  | .assignEach [name] values => do
    let name ← w.target name
    match values with
    | [] => .error .missingValue
    | value :: _ => return .concat [.text name, .text " = ", (← w.expr value).within 0]
  | .assignEach names values => do
    let values := Doc.joined (.text ", ") (← w.exprs values)
    return .concat [← w.targets names, .text " = ", values]
  | .empty => .error (.notStatement Stmt.empty.display)
  | .block statements => .error (.notStatement (Stmt.block statements).display)
  | .misplaced display => .error (.notStatement display)

/-- The lines of the last statement, the last of which returns its value. -/
def finalStatement : Stmt → Written (List Doc)
  | .result value => do return [.concat [.text "return ", (← w.expr value).within 0]]
  | .assign name value => do
    return [← w.statement (.assign name value), .text ("return " ++ w.variableText name)]
  | .unpack names value => do
    return [← w.statement (.unpack names value), .concat [.text "return ", ← w.targets names]]
  | .assignEach names values => do
    let line ← w.statement (.assignEach names values)
    match names.getLast? with
    | none => .error .missingValue
    | some name => return [line, .text ("return " ++ w.variableText name)]
  | s => .error (.notStatement s.display)

/-- Whether the function may have its name. -/
def checkName : Written Unit :=
  if !Text.isIdentifier w.functionName.toList || keywords.contains w.functionName then
    .error (.notIdentifier w.functionName)
  else if globalNames.contains w.functionName then .error (.shadowsFunction w.functionName)
  else .ok ()

/-- The function as a document. -/
def document (s : Stmt) : Written Doc := do
  w.checkName
  let statements := s.flatten.filter fun s => match s with | .empty => false | _ => true
  match statements.getLast? with
  | none => .error .noStatements
  | some last =>
    let angles : List Doc :=
      [.concat [.text "a0 = ", (number w.a0).doc], .concat [.text "a1 = ", (number w.a1).doc]]
    let lines ← statements.dropLast.mapM w.statement
    let body := angles ++ lines ++ (← w.finalStatement last)
    return .concat
      [.text ("def " ++ w.functionName ++ "(x, y, z):"),
       .nest indentation (.concat [Doc.hardLine, Doc.joined Doc.hardLine body])]

end HostWriter

end FieldLang
