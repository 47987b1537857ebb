/-
Reading a program from its tokens.

* `ParseError` : what was found where something else was needed, and at which offset;
* `expr`, `operand`, `operators` : expressions by operator precedence;
* `statement`, `program` : statements, and the statements between separators;
* `parseTokens` : a program, with the warning for one that ends in no expression;
* `SourceError`, `parse` : a program from its source text.

Design notes: `operators least lhs` goes on with an expression that begins with `lhs` as long
as the next operator binds its left side at least as tightly as `least`. Every reader returns
what it left unread together with a proof that it took a token, and recursion is on the
number of tokens; functions that call each other on the same tokens are ranked. There is no limit to
how deep a program is nested, as the stack of a host would set one.
-/
import FieldLang.Diagnostic.Policy
import FieldLang.Decimal.Notation
import FieldLang.Loops.Unroll
import FieldLang.Syntax.Reading
import FieldLang.Syntax.Token

namespace FieldLang

/-! ### Errors -/

/-- What a bracket or a function name must be followed by, sooner or later. -/
inductive Expectation where
  | argumentsOf (f : Builtin)
  | closingParen
  | closingArguments
  | closingBracket
  | colon
deriving Repr, DecidableEq

/-- What is wrong with a token; `none` is found at the end of the program. -/
inductive ParseFault where
  | unexpected (found : Option Lexeme)
  | expected (what : Expectation) (found : Option Lexeme) (opened : Option Nat)
  | separatorExpected (found : Option Lexeme)
  | nameExpected (found : Option Lexeme)
  | equalsExpected (found : Option Lexeme)
  | noNames
  | countMismatch (names values : Nat)
  | promoted (diagnostic : Diagnostic)
deriving Repr, BEq

/-- A fault and the offset of the token that has it. -/
structure ParseError where
  fault : ParseFault
  position : Option Nat
deriving Repr, BEq

/-- A found token in words. -/
def describe : Option Lexeme → String
  | none => "end of input"
  | some (.number value) => "number " ++ String.ofList (Decimal.general 6 value)
  | some (.function f) => "function " ++ Text.quote f.name
  | some (.variable name) => "variable " ++ Text.quote name
  | some lexeme => Text.quote (lexeme.fixedSpelling?.getD "")

/-- An expectation in words. -/
def Expectation.text : Expectation → String
  | argumentsOf f => "'(' after " ++ f.name
  | closingParen => "')'"
  | closingArguments => "')' closing the argument list"
  | closingBracket => "']'"
  | colon => "':' in conditional expression"

/-- The wording of a fault. -/
def ParseFault.text : ParseFault → String
  | unexpected found => "Unexpected " ++ describe found
  | expected what found opened =>
    "Expected " ++ what.text ++ ", found " ++ describe found ++
      match opened with
      | none => ""
      | some offset => " (opened at offset " ++ toString offset ++ ")"
  | separatorExpected found => "Expected ',' or ';' between statements, found " ++ describe found
  | nameExpected found => "Expected a variable name in array assignment, found " ++ describe found
  | equalsExpected found => "Expected '=' after array target, found " ++ describe found
  | noNames => "Array assignment needs at least one name"
  | countMismatch names values =>
    "Array assignment binds " ++ toString names ++ " names from " ++ toString values
      ++ " expressions"
  | promoted d => d.message

/-- The wording of an error. -/
def ParseError.message (e : ParseError) : String := located e.fault.text e.position

/-! ### Readers -/

/-- What stands at the front of the tokens. -/
def front (ts : List Token) : Option Lexeme := ts.head?.map Token.lexeme

/-- The failure at the front of the tokens of a program that ends at offset `stop`. -/
def failAt {α : Type} (stop : Nat) (ts : List Token) (fault : Option Lexeme → ParseFault) :
    Except ParseError α :=
  .error ⟨fault (front ts), some ((ts.head?.map Token.pos).getD stop)⟩

variable (stop : Nat)

mutual

/-- Reads an expression whose operators bind their left side at least as tightly as `least`. -/
def expr (least : Nat) (ts : List Token) : Except ParseError (Taken Expr ts) := do
  let first ← operand ts
  let whole ← operators least first.value first.rest
  return ⟨whole.value, whole.rest, by have := first.lt; have := whole.le; omega⟩
termination_by 4 * ts.length + 1
decreasing_by
  · omega
  · have := first.lt; omega

/-- Reads an expression that begins with no operand before an operator: a literal, a variable,
a call, an expression in brackets or one with a sign. -/
def operand (ts : List Token) : Except ParseError (Taken Expr ts) :=
  match ts with
  | ⟨.number value, _⟩ :: rest => .ok ⟨.number value, rest, by simp⟩
  | ⟨.variable name, _⟩ :: ⟨.step op, _⟩ :: rest =>
    .ok ⟨.step name op, rest, by simp only [List.length_cons]; omega⟩
  | ⟨.variable name, _⟩ :: rest => .ok ⟨.variable name, rest, by simp⟩
  | ⟨.function f, opened⟩ :: ⟨.lparen, _⟩ :: rest => do
    let args ← arguments opened rest
    return ⟨.call f args.value, args.rest, by have := args.lt; simp; omega⟩
  | ⟨.function f, _⟩ :: rest => failAt stop rest fun found => .expected (.argumentsOf f) found none
  | ⟨.lparen, opened⟩ :: rest => do
    let inner ← expr 0 rest
    match h : inner.rest with
    | ⟨.rparen, _⟩ :: after =>
      return ⟨inner.value, after, by have := inner.lt; simp [h] at this ⊢; omega⟩
    | found => failAt stop found fun found => .expected .closingParen found (some opened)
  | ⟨.operator .sub, _⟩ :: rest => do
    let inner ← expr signPower rest
    return ⟨.negate inner.value, inner.rest, by have := inner.lt; simp; omega⟩
  | ⟨.operator .add, _⟩ :: rest => do
    let inner ← expr signPower rest
    return ⟨inner.value, inner.rest, by have := inner.lt; simp; omega⟩
  | found => failAt stop found .unexpected
termination_by 4 * ts.length
decreasing_by all_goals (simp; try omega)

/-- Goes on with an expression that begins with `lhs`. -/
def operators (least : Nat) (lhs : Expr) (ts : List Token) : Except ParseError (Kept Expr ts) :=
  match ts with
  | ⟨.question, opened⟩ :: rest =>
    if conditionPower < least then .ok ⟨lhs, ⟨.question, opened⟩ :: rest, Nat.le_refl _⟩
    else do
      let ifTrue ← expr 0 rest
      match h : ifTrue.rest with
      | ⟨.colon, _⟩ :: after => do
        let ifFalse ← expr branchPower after
        let whole ← operators least (.conditional lhs ifTrue.value ifFalse.value) ifFalse.rest
        return ⟨whole.value, whole.rest, by
          have := ifTrue.lt; have := ifFalse.lt; have := whole.le
          simp [h] at *; omega⟩
      | found => failAt stop found fun found => .expected .colon found (some opened)
  | ⟨.operator op, pos⟩ :: rest =>
    if op.leftPower < least then .ok ⟨lhs, ⟨.operator op, pos⟩ :: rest, Nat.le_refl _⟩
    else do
      let rhs ← expr op.rightPower rest
      let whole ← operators least (.binary op lhs rhs.value) rhs.rest
      return ⟨whole.value, whole.rest, by
        have := rhs.lt; have := whole.le
        simp at *; omega⟩
  | ts => .ok ⟨lhs, ts, Nat.le_refl _⟩
termination_by 4 * ts.length
decreasing_by
  · simp; omega
  · have := ifTrue.lt; simp [h] at *; omega
  · have := ifTrue.lt; have := ifFalse.lt; simp [h] at *; omega
  · simp; omega
  · have := rhs.lt; simp at *; omega

/-- Reads one argument; a bracketed list counts as its items. -/
def argument (ts : List Token) : Except ParseError (Taken (List Expr) ts) :=
  match ts with
  | ⟨.lbracket, opened⟩ :: rest => do
    let list ← items opened rest
    return ⟨list.value, list.rest, by have := list.lt; simp; omega⟩
  | ts => do
    let e ← expr 0 ts
    return ⟨[e.value], e.rest, e.lt⟩
termination_by 4 * ts.length + 2
decreasing_by all_goals (simp; try omega)

/-- Reads arguments up to and including the round bracket that closes them. -/
def arguments (opened : Nat) (ts : List Token) : Except ParseError (Taken (List Expr) ts) :=
  match ts with
  | ⟨.rparen, _⟩ :: rest => .ok ⟨[], rest, by simp⟩
  | ts => do
    let first ← argument ts
    match h : first.rest with
    | ⟨.comma, _⟩ :: after => do
      let more ← arguments opened after
      return ⟨first.value ++ more.value, more.rest, by
        have := first.lt; have := more.lt
        simp [h] at *; omega⟩
    | ⟨.rparen, _⟩ :: after =>
      return ⟨first.value, after, by have := first.lt; simp [h] at *; omega⟩
    | found => failAt stop found fun found => .expected .closingArguments found (some opened)
termination_by 4 * ts.length + 3
decreasing_by
  · omega
  · have := first.lt; simp [h] at *; omega

/-- Reads expressions up to and including the square bracket that closes them. -/
def items (opened : Nat) (ts : List Token) : Except ParseError (Taken (List Expr) ts) :=
  match ts with
  | ⟨.rbracket, _⟩ :: rest => .ok ⟨[], rest, by simp⟩
  | ts => do
    let first ← expr 0 ts
    match h : first.rest with
    | ⟨.comma, _⟩ :: after => do
      let more ← items opened after
      return ⟨first.value :: more.value, more.rest, by
        have := first.lt; have := more.lt
        simp [h] at *; omega⟩
    | ⟨.rbracket, _⟩ :: after =>
      return ⟨[first.value], after, by have := first.lt; simp [h] at *; omega⟩
    | found => failAt stop found fun found => .expected .closingBracket found (some opened)
termination_by 4 * ts.length + 2
decreasing_by
  · omega
  · have := first.lt; simp [h] at *; omega

end

/-! ### Statements -/

/-- Whether a statement may end before these tokens. -/
def endsStatement : List Token → Bool
  | [] => true
  | ⟨.comma, _⟩ :: _ => true
  | ⟨.semicolon, _⟩ :: _ => true
  | _ => false

/-- Reads names up to and including the square bracket that closes them. -/
def names (opened : Nat) (ts : List Token) : Except ParseError (Taken (List String) ts) :=
  match ts with
  | ⟨.rbracket, _⟩ :: rest => .ok ⟨[], rest, by simp⟩
  | ⟨.variable name, _⟩ :: ⟨.comma, _⟩ :: rest => do
    let more ← names opened rest
    return ⟨name :: more.value, more.rest, by have := more.lt; simp; omega⟩
  | ⟨.variable name, _⟩ :: ⟨.rbracket, _⟩ :: rest =>
    .ok ⟨[name], rest, by simp only [List.length_cons]; omega⟩
  | ⟨.variable _, _⟩ :: rest =>
    failAt stop rest fun found => .expected .closingBracket found (some opened)
  | found => failAt stop found .nameExpected
termination_by ts.length

/-- Reads what is assigned to the names in an array target that has just been read. -/
def arrayValue (targets : List String) (ts : List Token) : Except ParseError (Taken Stmt ts) :=
  match ts with
  | ⟨.assign .plain, _⟩ :: ⟨.lbracket, opened⟩ :: rest => do
    let values ← items stop opened rest
    if values.value.length = targets.length then
      return ⟨.assignEach targets values.value, values.rest, by
        have := values.lt; simp; omega⟩
    else .error ⟨.countMismatch targets.length values.value.length, some opened⟩
  | ⟨.assign .plain, _⟩ :: rest => do
    let value ← expr stop 0 rest
    return ⟨.unpack targets value.value, value.rest, by have := value.lt; simp; omega⟩
  | found => failAt stop found .equalsExpected

/-- Reads a statement. -/
def statement (ts : List Token) : Except ParseError (Taken Stmt ts) :=
  match ts with
  | ⟨.lbracket, opened⟩ :: rest => do
    let targets ← names stop opened rest
    if targets.value = [] then .error ⟨.noNames, some opened⟩
    else
      let s ← arrayValue stop targets.value targets.rest
      return ⟨s.value, s.rest, by have := targets.lt; have := s.lt; simp; omega⟩
  | ⟨.variable name, _⟩ :: ⟨.assign op, _⟩ :: rest => do
    let value ← expr stop 0 rest
    let value' := match op.operator? with
      | none => value.value
      | some op => .binary op (.variable name) value.value
    return ⟨.assign name value', value.rest, by have := value.lt; simp; omega⟩
  | ⟨.variable name, _⟩ :: ⟨.step op, _⟩ :: rest =>
    if endsStatement rest then
      .ok ⟨.assign name (.binary op.toBinOp (.variable name) (.number 1)), rest, by
        simp only [List.length_cons]
        omega⟩
    else do
      let e ← operators stop 0 (.step name op) rest
      return ⟨.result e.value, e.rest, by have := e.le; simp; omega⟩
  | ts => do
    let e ← expr stop 0 ts
    return ⟨.result e.value, e.rest, e.lt⟩

/-- Reads a program: statements between separators, an empty one before each separator that
follows none. -/
def program (ts : List Token) : Except ParseError Program :=
  match ts with
  | [] => .ok []
  | ⟨.comma, _⟩ :: rest => do return .empty :: (← program rest)
  | ⟨.semicolon, _⟩ :: rest => do return .empty :: (← program rest)
  | ts => do
    let s ← statement stop ts
    match _h : s.rest with
    | [] => return [s.value]
    | ⟨.comma, _⟩ :: rest => return s.value :: (← program rest)
    | ⟨.semicolon, _⟩ :: rest => return s.value :: (← program rest)
    | found => failAt stop found .separatorExpected
termination_by ts.length
decreasing_by
  · simp
  · simp
  · have := s.lt; simp [_h] at this; omega
  · have := s.lt; simp [_h] at this; omega

/-! ### Programs -/

/-- Whether the last statement that is not empty is an expression; a program without
statements needs none. -/
def endsInResult (program : Program) : Bool :=
  match (program.filter fun s => match s with | .empty => false | _ => true).getLast? with
  | none => true
  | some (.result _) => true
  | some _ => false

/-- The warning for a program that ends in no expression. -/
def noResultWarning : Diagnostic where
  warning := .noResult
  text := "Program does not end with an expression; its result is the last assigned value"
  position := none

/-- Reads a program whose text ends at offset `stop`. -/
def parseTokens (policy : Option Policy) (ts : List Token) : Reporting ParseError Program := do
  let p ← Reporting.ofExcept (program stop ts)
  if !endsInResult p then
    report policy noResultWarning fun d => ⟨.promoted d, d.position⟩
  return p

/-- What can be wrong with a source text. -/
inductive SourceError where
  | loop (error : Loops.LoopError)
  | lex (error : LexError)
  | parse (error : ParseError)
deriving Repr, BEq

/-- The wording of an error. -/
def SourceError.message : SourceError → String
  | loop e => e.message
  | lex e => e.message
  | parse e => e.message

/-- The offset that an error points at. -/
def SourceError.position : SourceError → Option Nat
  | loop e => e.position
  | lex e => some e.position
  | parse e => e.position

/-- The tokens of a source text, after unrolling its loops. -/
def tokenize (policy : Option Policy) (source : List Char) :
    Reporting SourceError (List Token) := do
  let text ← (Loops.expand policy source).mapError .loop
  (Reporting.ofExcept (tokens text)).mapError .lex

/-- The program of a source text. -/
def parse (policy : Option Policy) (source : List Char) : Reporting SourceError Program := do
  let text ← (Loops.expand policy source).mapError .loop
  let ts ← (Reporting.ofExcept (tokens text)).mapError .lex
  (parseTokens text.length policy ts).mapError .parse

end FieldLang
