/-
Tokens of the host language.

* `HostToken` : a name, a literal, a mark, or the beginning of a line;
* `hostTokens` : the tokens of a text, if it has any reading;
* `Host.nesting` : how many brackets of a text are open at once.

Design notes: a line feed between brackets only separates; any other one begins a line, and
the token for it tells how far the line is indented. Lines without tokens do not count.
-/
import FieldLang.Decimal.Reader
import FieldLang.Text.Identifier

namespace FieldLang

/-- A token of the host language. -/
inductive HostToken where
  | name (name : String)
  | whole (n : Nat)
  | real (x : Float)
  | mark (spelling : String)
  | line (indent : Nat)
deriving Repr, BEq

namespace Host

/-- The marks of two characters. -/
def pairMarks : List (List Char) :=
  [['*', '*'], ['=', '='], ['!', '='], ['<', '='], ['>', '='], [':', '=']]

/-- The marks of one character. -/
def charMarks : List Char :=
  ['+', '-', '*', '/', '<', '>', '=', '(', ')', '[', ']', ',', ':']

/-- A literal of digits: no zero stands before other digits. -/
def wholeToken (digits : List Char) : Option HostToken :=
  if digits.head? = some '0' ∧ digits.any (· != '0') then none
  else some (.whole (Decimal.ofDigits digits))

/-- The characters that a literal with a given beginning goes on with. A sign belongs to it
behind an `e`. -/
def literalEnd (last : Char) : List Char → List Char
  | [] => []
  | c :: rest =>
    if c.isAlphanum || c == '.' || c == '_' then c :: literalEnd c rest
    else if (c == '-' || c == '+') && (last == 'e' || last == 'E') then c :: literalEnd c rest
    else []

/-- The token of a literal. -/
def literalToken (literal : List Char) : Option HostToken :=
  if literal.all Char.isDigit then wholeToken literal
  else if literal.all fun c => c.isDigit || c == '.' || c == 'e' || c == '-' || c == '+' then
    (Decimal.asciiNumber? literal).map .real
  else none

/-- The longest token at the front of a text that is not a line feed, and the number of
characters behind its first that belong to it. -/
def scanToken (c : Char) (rest : List Char) : Option (HostToken × Nat) :=
  if Text.startsName c then
    let more := rest.takeWhile Text.continuesName
    some (.name (String.ofList (c :: more)), more.length)
  else if c.isDigit || (c == '.' && (rest.head?.map Char.isDigit).getD false) then do
    let more := literalEnd c rest
    return (← literalToken (c :: more), more.length)
  else if pairMarks.contains (c :: rest.take 1) then
    some (.mark (String.ofList (c :: rest.take 1)), 1)
  else if charMarks.contains c then some (.mark (String.singleton c), 0)
  else none

/-- How many brackets are open behind a token. -/
def depthAfter (depth : Nat) : HostToken → Nat
  | .mark "(" | .mark "[" => depth + 1
  | .mark ")" | .mark "]" => depth - 1
  | _ => depth

/-- The tokens of a text, `depth` brackets being open before it. -/
def tokensFrom (depth : Nat) (text : List Char) : Option (List HostToken) :=
  match text with
  | [] => if depth = 0 then some [] else none
  | c :: rest =>
    if c = '\n' then
      if depth = 0 then do
        let indent := (rest.takeWhile (· == ' ')).length
        let more ← tokensFrom 0 (rest.drop indent)
        match (rest.drop indent).head? with
        | none | some '\n' => return more
        | some _ => return .line indent :: more
      else tokensFrom depth rest
    else if c = ' ' then tokensFrom depth rest
    else
      match scanToken c rest with
      | none => none
      | some (token, n) => do
        let more ← tokensFrom (depthAfter depth token) (rest.drop n)
        return token :: more
termination_by text.length
decreasing_by all_goals (simp; try omega)

end Host

/-- The tokens of a text, beginning with that of its first line. -/
def hostTokens (text : List Char) : Option (List HostToken) := Host.tokensFrom 0 ('\n' :: text)

namespace Host

/-- How many brackets are open at most before, between or behind tokens, `depth` brackets being
open before them. -/
def deepest : Nat → List HostToken → Nat
  | depth, [] => depth
  | depth, t :: ts => max depth (deepest (depthAfter depth t) ts)

/-- How many brackets of a text are open at once. -/
def nesting (text : List Char) : Nat := ((hostTokens text).map (deepest 0)).getD 0

end Host

end FieldLang
