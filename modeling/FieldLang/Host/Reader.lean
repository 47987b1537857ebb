/-
Reading a function of the host language.

* `Host.test` : an expression;
* `Host.line` : a line of a function;
* `HostFunction.read?` : a function from its text; none if the text does not compile.

Design notes: a conditional binds least, then `or`, `and`, comparisons, sums and products.
A sign binds tighter than a product and looser than a power on its right, and the right
operand of a power may have a sign. Recursion is on the number of tokens.
-/
import FieldLang.Host.Token
import FieldLang.Host.Tree
import FieldLang.Syntax.Reading
import FieldLang.Writing.Host

namespace FieldLang

namespace Host

/-- The rank of a comparison between two operands. -/
def compareRank : Nat := 3

/-- The operator that a token stands for between two operands, and its rank. -/
def operator? : HostToken → Option (BinOp × Nat)
  | .name "or" => some (.or, 1)
  | .name "and" => some (.and, 2)
  | .mark "==" => some (.eq, compareRank)
  | .mark "!=" => some (.notEq, compareRank)
  | .mark ">" => some (.greater, compareRank)
  | .mark ">=" => some (.greaterEq, compareRank)
  | .mark "<" => some (.less, compareRank)
  | .mark "<=" => some (.lessEq, compareRank)
  | .mark "+" => some (.add, 4)
  | .mark "-" => some (.sub, 4)
  | .mark "*" => some (.mul, 5)
  | .mark "/" => some (.div, 5)
  | _ => none

/-- Whether a word can name a variable. -/
def isName (word : String) : Bool := !keywords.contains word

mutual

/-- Reads an expression. -/
def test (ts : List HostToken) : Option (Taken HostExpr ts) := do
  let first ← binary 1 ts
  match h : first.rest with
  | .name "if" :: rest => do
    let condition ← binary 1 rest
    match h' : condition.rest with
    | .name "else" :: rest' => do
      let other ← test rest'
      return ⟨.conditional first.value condition.value other.value, other.rest, by
        have := first.lt; have := condition.lt; have := other.lt
        simp [h, h'] at *; omega⟩
    | _ => none
  | _ => return first
termination_by 6 * ts.length + 4
decreasing_by
  · omega
  · have := first.lt; simp [h] at this; omega
  · have := first.lt; have := condition.lt; simp [h, h'] at *; omega

/-- Reads operands between operators of at least a given rank. -/
def binary (least : Nat) (ts : List HostToken) : Option (Taken HostExpr ts) := do
  let first ← signed ts
  let whole ← operators least first.value first.rest
  return ⟨whole.value, whole.rest, by have := first.lt; have := whole.le; omega⟩
termination_by 6 * ts.length + 3
decreasing_by
  · omega
  · have := first.lt; omega

/-- Goes on with an expression that begins with `lhs`. -/
def operators (least : Nat) (lhs : HostExpr) (ts : List HostToken) :
    Option (Kept HostExpr ts) :=
  match ts with
  | [] => some ⟨lhs, [], Nat.le_refl _⟩
  | t :: rest =>
    match operator? t with
    | none => some ⟨lhs, t :: rest, Nat.le_refl _⟩
    | some (op, rank) =>
      if rank < least then some ⟨lhs, t :: rest, Nat.le_refl _⟩
      else do
        let rhs ← binary (rank + 1) rest
        if rank = compareRank then
          let more ← comparisons rhs.rest
          let row := .compare (lhs :: rhs.value :: more.value.map Prod.snd)
            (op :: more.value.map Prod.fst)
          let whole ← operators least row more.rest
          return ⟨whole.value, whole.rest, by
            have := rhs.lt; have := more.le; have := whole.le
            simp at *; omega⟩
        else
          let whole ← operators least (.binary op lhs rhs.value) rhs.rest
          return ⟨whole.value, whole.rest, by
            have := rhs.lt; have := whole.le
            simp at *; omega⟩
termination_by 6 * ts.length
decreasing_by
  · simp; omega
  · have := rhs.lt; simp at *; omega
  · have := rhs.lt; have := more.le; simp at *; omega
  · have := rhs.lt; simp at *; omega

/-- Reads the comparisons that follow a first one. -/
def comparisons (ts : List HostToken) : Option (Kept (List (BinOp × HostExpr)) ts) :=
  match ts with
  | [] => some ⟨[], [], Nat.le_refl _⟩
  | t :: rest =>
    match operator? t with
    | none => some ⟨[], t :: rest, Nat.le_refl _⟩
    | some (op, rank) =>
      if rank = compareRank then do
        let rhs ← binary (compareRank + 1) rest
        let more ← comparisons rhs.rest
        return ⟨(op, rhs.value) :: more.value, more.rest, by
          have := rhs.lt; have := more.le
          simp at *; omega⟩
      else some ⟨[], t :: rest, Nat.le_refl _⟩
termination_by 6 * ts.length
decreasing_by
  · simp; omega
  · have := rhs.lt; simp at *; omega

/-- Reads an operand with the signs before it. -/
def signed (ts : List HostToken) : Option (Taken HostExpr ts) :=
  match ts with
  | .mark "-" :: rest => do
    let operand ← signed rest
    return ⟨.negate operand.value, operand.rest, by have := operand.lt; simp; omega⟩
  | ts => power ts
termination_by 6 * ts.length + 2
decreasing_by
  · simp
  · omega

/-- Reads an operand with the powers behind it. -/
def power (ts : List HostToken) : Option (Taken HostExpr ts) := do
  let base ← atom ts
  match h : base.rest with
  | .mark "**" :: rest => do
    let exponent ← signed rest
    return ⟨.binary .pow base.value exponent.value, exponent.rest, by
      have := base.lt; have := exponent.lt
      simp [h] at *; omega⟩
  | _ => return base
termination_by 6 * ts.length + 1
decreasing_by
  · omega
  · have := base.lt; simp [h] at *; omega

/-- Reads a literal, a name, a call or something in brackets. -/
def atom (ts : List HostToken) : Option (Taken HostExpr ts) :=
  match ts with
  | .whole n :: rest => some ⟨.whole n, rest, by simp⟩
  | .real x :: rest => some ⟨.real x, rest, by simp⟩
  | .name f :: .mark "(" :: rest =>
    if isName f then do
      let args ← items ")" rest
      return ⟨.call f args.value, args.rest, by have := args.lt; simp; omega⟩
    else none
  | .name n :: rest => if isName n then some ⟨.name n, rest, by simp⟩ else none
  | .mark "[" :: rest => do
    let inner ← items "]" rest
    return ⟨.list inner.value, inner.rest, by have := inner.lt; simp; omega⟩
  | .mark "(" :: .name n :: .mark ":=" :: rest =>
    if isName n then do
      let value ← test rest
      match h : value.rest with
      | .mark ")" :: after =>
        return ⟨.bind n value.value, after, by
          have := value.lt
          simp [h] at *; omega⟩
      | _ => none
    else none
  | .mark "(" :: .mark ")" :: rest =>
    some ⟨.tuple [], rest, by simp only [List.length_cons]; omega⟩
  | .mark "(" :: rest => do
    let first ← test rest
    match h : first.rest with
    | .mark ")" :: after =>
      return ⟨first.value, after, by have := first.lt; simp [h] at *; omega⟩
    | .mark "," :: after => do
      let more ← items ")" after
      return ⟨.tuple (first.value :: more.value), more.rest, by
        have := first.lt; have := more.lt
        simp [h] at *; omega⟩
    | _ => none
  | _ => none
termination_by 6 * ts.length
decreasing_by
  · simp; omega
  · simp; omega
  · simp; omega
  · simp; omega
  · have := first.lt; simp [h] at *; omega

/-- Reads items up to and including the mark that closes them. -/
def items (closing : String) (ts : List HostToken) : Option (Taken (List HostExpr) ts) :=
  match ts with
  | [] => none
  | t :: rest =>
    if t == .mark closing then some ⟨[], rest, by simp⟩
    else do
      let first ← test (t :: rest)
      match h : first.rest with
      | .mark "," :: after => do
        let more ← items closing after
        return ⟨first.value :: more.value, more.rest, by
          have := first.lt; have := more.lt
          simp [h] at *; omega⟩
      | t' :: after =>
        if t' == .mark closing then
          return ⟨[first.value], after, by have := first.lt; simp [h] at *; omega⟩
        else none
      | [] => none
termination_by 6 * ts.length + 5
decreasing_by
  · simp
  · have := first.lt; simp [h] at *; omega

end

/-! ### Lines -/

/-- Whether a row of expressions may end before these tokens. -/
def endsRow : List HostToken → Bool
  | [] => true
  | .line _ :: _ => true
  | .mark "=" :: _ => true
  | _ => false

/-- Reads the expressions of a row behind its first one, and whether there was a comma. -/
def rowTail (ts : List HostToken) : Option (Kept (List HostExpr × Bool) ts) :=
  match ts with
  | .mark "," :: rest =>
    if endsRow rest then some ⟨([], true), rest, by simp⟩
    else do
      let e ← test rest
      let more ← rowTail e.rest
      return ⟨(e.value :: more.value.1, true), more.rest, by
        have := e.lt; have := more.le
        simp; omega⟩
  | ts => some ⟨([], false), ts, Nat.le_refl _⟩
termination_by ts.length
decreasing_by have := e.lt; simp; omega

/-- Reads a row of expressions, which is a tuple if there is a comma. -/
def row (ts : List HostToken) : Option (Taken HostExpr ts) := do
  let first ← test ts
  let more ← rowTail first.rest
  let whole := if more.value.2 then .tuple (first.value :: more.value.1) else first.value
  return ⟨whole, more.rest, by have := first.lt; have := more.le; omega⟩

/-- The name that an expression is. -/
def nameOf? : HostExpr → Option String
  | .name n => some n
  | _ => none

/-- What can be assigned to, read as an expression. -/
def targetOf? : HostExpr → Option HostTarget
  | .name n => some (.name n)
  | .tuple items => (items.mapM nameOf?).map .names
  | _ => none

/-- Reads a line. -/
def line (ts : List HostToken) : Option (Taken HostStmt ts) :=
  match ts with
  | .name "return" :: rest =>
    if endsRow rest then some ⟨.return none, rest, by simp⟩
    else do
      let value ← row rest
      return ⟨.return (some value.value), value.rest, by have := value.lt; simp; omega⟩
  | ts => do
    let first ← row ts
    match h : first.rest with
    | .mark "=" :: rest => do
      let target ← targetOf? first.value
      let value ← row rest
      return ⟨.assign target value.value, value.rest, by
        have := first.lt; have := value.lt
        simp [h] at *; omega⟩
    | _ => return ⟨.expr first.value, first.rest, first.lt⟩

/-- Reads lines of one indentation to the end. -/
def block (indent : Nat) (ts : List HostToken) : Option (List HostStmt) :=
  match ts with
  | [] => some []
  | .line k :: rest =>
    if k = indent then do
      let first ← line rest
      let more ← block indent first.rest
      return first.value :: more
    else none
  | _ => none
termination_by ts.length
decreasing_by have := first.lt; simp; omega

/-- The name that the host lets nobody bind. -/
def constantName : String := "__debug__"

end Host

/-- The function of three coordinates that a text defines. -/
def HostFunction.read? (text : List Char) : Option HostFunction := do
  match ← hostTokens text with
  | .line 0 :: .name "def" :: .name f :: .mark "(" :: .name x :: .mark "," :: .name y :: .mark ","
      :: .name z :: .mark ")" :: .mark ":" :: .line indent :: rest =>
    if indent = 0 ∨ f = Host.constantName then none
    else return ⟨f, [x, y, z], ← Host.block indent (.line indent :: rest)⟩
  | _ => none

end FieldLang
