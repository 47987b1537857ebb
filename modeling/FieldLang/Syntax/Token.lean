/-
Tokens of a program, and reading them.

* `Lexeme`, `Token` : what a token says, and where it begins;
* `Lexeme.className` : the class of a token;
* `LexError` : a character that begins no token, or a malformed number;
* `scan` : the longest token at the front of a text;
* `tokens` : the tokens of a text;
* `Cursor` : a row of tokens read one by one.

Design notes: a number is a run of digits and points, a name a letter followed by letters
and digits, all ASCII; an operator of two characters is preferred to one of one character.
Names that call a function are tokens of their own.
-/
import FieldLang.Decimal.Reader
import FieldLang.Diagnostic.Basic
import FieldLang.Syntax.Tree
import FieldLang.Text.Quoted

namespace FieldLang

/-- The ways to assign: plainly, or through an operator. -/
inductive AssignOp where
  | plain | add | sub | mul | div
deriving Repr, DecidableEq

namespace AssignOp

/-- The spelling in programs. -/
def spelling : AssignOp → String
  | plain => "=" | add => "+=" | sub => "-=" | mul => "*=" | div => "/="

/-- The operator that is applied before the assignment. -/
def operator? : AssignOp → Option BinOp
  | plain => none
  | add => some .add | sub => some .sub | mul => some .mul | div => some .div

end AssignOp

/-- What a token says. -/
inductive Lexeme where
  | number (value : Float)
  | operator (op : BinOp)
  | step (op : StepOp)
  | assign (op : AssignOp)
  | lparen | rparen | lbracket | rbracket | lbrace | rbrace
  | comma | semicolon | question | colon
  | function (f : Builtin)
  | variable (name : String)
deriving Repr, BEq

/-- A token and the offset at which it begins. -/
structure Token where
  lexeme : Lexeme
  pos : Nat
deriving Repr, BEq

/-- The spelling of a lexeme that always has the same one. -/
def Lexeme.fixedSpelling? : Lexeme → Option String
  | .operator op => some op.spelling
  | .step op => some op.spelling
  | .assign op => some op.spelling
  | .lparen => some "(" | .rparen => some ")"
  | .lbracket => some "[" | .rbracket => some "]"
  | .lbrace => some "\x7b" | .rbrace => some "\x7d"
  | .comma => some "," | .semicolon => some ";"
  | .question => some "?" | .colon => some ":"
  | .number _ | .function _ | .variable _ => none

/-- The name of the class that a lexeme belongs to. -/
def Lexeme.className : Lexeme → String
  | .number _ => "NUMBER"
  | .operator _ | .step _ => "OPERATOR"
  | .assign _ => "ASSIGN"
  | .lparen => "LPAREN"
  | .rparen => "RPAREN"
  | .lbracket => "LBRACKET"
  | .rbracket => "RBRACKET"
  | .lbrace => "LBRACE"
  | .rbrace => "RBRACE"
  | .comma => "COMMA"
  | .semicolon => "SEMICOLON"
  | .question => "QUESTION"
  | .colon => "COLON"
  | .function _ => "FUNCTION"
  | .variable _ => "VARIABLE"

/-! ### Scanning -/

/-- What can be wrong with a text at some offset. -/
inductive LexFault where
  | unexpected (c : Char)
  | manyPoints (literal : List Char)
  | onlyPoint
deriving Repr, DecidableEq

/-- A fault and its offset. -/
structure LexError where
  fault : LexFault
  position : Nat
deriving Repr, DecidableEq

/-- The wording of a fault. -/
def LexFault.text : LexFault → String
  | unexpected c => "Unexpected character " ++ Text.quote (String.singleton c)
  | manyPoints literal =>
    "Malformed number " ++ Text.quote (String.ofList literal) ++ ": more than one decimal point"
  | onlyPoint => "Malformed number '.': no digits"

/-- The wording of an error. -/
def LexError.message (e : LexError) : String := located e.fault.text (some e.position)

/-- The lexemes spelled with two characters. -/
def pairLexeme? : Char → Char → Option Lexeme
  | '=', '=' => some (.operator .eq)
  | '!', '=' => some (.operator .notEq)
  | '>', '=' => some (.operator .greaterEq)
  | '<', '=' => some (.operator .lessEq)
  | '&', '&' => some (.operator .and)
  | '|', '|' => some (.operator .or)
  | '*', '*' => some (.operator .pow)
  | '+', '+' => some (.step .increment)
  | '-', '-' => some (.step .decrement)
  | '+', '=' => some (.assign .add)
  | '-', '=' => some (.assign .sub)
  | '*', '=' => some (.assign .mul)
  | '/', '=' => some (.assign .div)
  | _, _ => none

/-- The lexemes spelled with one character. -/
def charLexeme? : Char → Option Lexeme
  | '+' => some (.operator .add)
  | '-' => some (.operator .sub)
  | '*' => some (.operator .mul)
  | '/' => some (.operator .div)
  | '>' => some (.operator .greater)
  | '<' => some (.operator .less)
  | '=' => some (.assign .plain)
  | '(' => some .lparen
  | ')' => some .rparen
  | '[' => some .lbracket
  | ']' => some .rbracket
  | '{' => some .lbrace
  | '}' => some .rbrace
  | ',' => some .comma
  | ';' => some .semicolon
  | '?' => some .question
  | ':' => some .colon
  | _ => none

/-- The characters of numbers. -/
def isNumberChar (c : Char) : Bool := c.isDigit || c == '.'

/-- The lexeme of a run of digits and points. -/
def numberLexeme (literal : List Char) : Except LexFault Lexeme :=
  if 1 < literal.count '.' then .error (.manyPoints literal)
  else if literal = ['.'] then .error .onlyPoint
  else .ok (.number (Decimal.readLiteral literal))

/-- The lexeme of a name. -/
def nameLexeme (name : String) : Lexeme :=
  match Builtin.ofMnemonic? name with
  | some f => .function f
  | none => .variable name

/-- The longest token that begins with the character `c` when `rest` follows it, and the
number of characters of `rest` that belong to it. -/
def scan (c : Char) (rest : List Char) : Except LexFault (Lexeme × Nat) :=
  match rest.head?.bind (pairLexeme? c) with
  | some lexeme => .ok (lexeme, 1)
  | none =>
    match charLexeme? c with
    | some lexeme => .ok (lexeme, 0)
    | none =>
      if isNumberChar c then do
        let more := rest.takeWhile isNumberChar
        let lexeme ← numberLexeme (c :: more)
        return (lexeme, more.length)
      else if c.isAlpha then
        let more := rest.takeWhile Char.isAlphanum
        .ok (nameLexeme (String.ofList (c :: more)), more.length)
      else .error (.unexpected c)

/-- The tokens of a text that begins at an offset. -/
def tokensFrom (offset : Nat) (text : List Char) : Except LexError (List Token) :=
  match text with
  | [] => .ok []
  | c :: rest =>
    if Text.isBlank c then tokensFrom (offset + 1) rest
    else
      match scan c rest with
      | .error fault => .error ⟨fault, offset⟩
      | .ok (lexeme, n) => do
        let more ← tokensFrom (offset + n + 1) (rest.drop n)
        return ⟨lexeme, offset⟩ :: more
termination_by text.length
decreasing_by all_goals (simp; try omega)

/-- The tokens of a text. -/
def tokens (text : List Char) : Except LexError (List Token) := tokensFrom 0 text

/-! ### Reading tokens one by one -/

/-- The offset just behind the beginning of the last token. -/
def endOfTokens (ts : List Token) : Nat :=
  match ts.getLast? with
  | some t => t.pos + 1
  | none => 0

/-- Tokens that are still to be read. -/
structure Cursor where
  rest : List Token

namespace Cursor

/-- The next token, if there is one. -/
def peek (c : Cursor) : Option Token := c.rest.head?

/-- The next token, if there is one, and the cursor behind it. -/
def next (c : Cursor) : Option Token × Cursor := (c.rest.head?, ⟨c.rest.tail⟩)

end Cursor

end FieldLang
