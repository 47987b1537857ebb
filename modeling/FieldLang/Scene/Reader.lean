/-
Reading the text of a scene as data.

The text is JSON: null, true, false, numbers, texts in double quotes, rows in square and
records in curly brackets, with blanks between them.

* `Datum.number?`, `Datum.readText`, `Datum.read` : numbers, texts and any data;
* `Datum.ofJson` : the datum that a whole text is;
* `Datum.hasDistinctNames` : no record in it has two fields of one name.

Design notes: recursion is on the number of characters. A text is a row of Unicode scalar values, so the
two halves of an escaped pair stand for nothing when they are apart.
-/
import FieldLang.Decimal.Reader
import FieldLang.Scene.Datum
import FieldLang.Syntax.Reading

namespace FieldLang.Datum

/-! ### Numbers -/

/-- Digits, at least one of them. -/
def areDigits (s : List Char) : Bool := !s.isEmpty && s.all Char.isDigit

/-- The digits of a whole part: no zero stands before other digits. -/
def isWholePart (s : List Char) : Bool := areDigits s && (s.head? != some '0' || s.length == 1)

/-- An exponent with its sign, behind the letter. -/
def isExponent : List Char → Bool
  | '+' :: digits | '-' :: digits => areDigits digits
  | digits => areDigits digits

/-- Whether a text is an exponent or nothing. -/
def isExponentPart : List Char → Bool
  | [] => true
  | 'e' :: rest | 'E' :: rest => isExponent rest
  | _ => false

/-- Whether a text is a fraction or an exponent, or one behind the other. -/
def isBrokenPart : List Char → Bool
  | '.' :: rest =>
    areDigits (rest.takeWhile Char.isDigit) && isExponentPart (rest.dropWhile Char.isDigit)
  | rest => isExponentPart rest

/-- The number that a text is. -/
def number? (s : List Char) : Option Datum :=
  let (negative, body) := match s with
    | '-' :: rest => (true, rest)
    | rest => (false, rest)
  let digits := body.takeWhile Char.isDigit
  let broken := body.dropWhile Char.isDigit
  if !isWholePart digits || !isBrokenPart broken then none
  else if broken.isEmpty then
    let n : Int := Decimal.ofDigits digits
    some (.whole (if negative then -n else n))
  else (Decimal.asciiNumber? s).map .real

/-- The characters of numbers. -/
def isNumberChar (c : Char) : Bool :=
  c.isDigit || c == '-' || c == '+' || c == '.' || c == 'e' || c == 'E'

/-! ### Texts -/

/-- The value of a hexadecimal digit. -/
def hexDigit? (c : Char) : Option Nat :=
  if c.isDigit then some (c.toNat - 48)
  else if 'a' ≤ c ∧ c ≤ 'f' then some (c.toNat - 87)
  else if 'A' ≤ c ∧ c ≤ 'F' then some (c.toNat - 55)
  else none

/-- The number that four hexadecimal digits stand for. -/
def hex4? (a b c d : Char) : Option Nat := do
  return 4096 * (← hexDigit? a) + 256 * (← hexDigit? b) + 16 * (← hexDigit? c) + (← hexDigit? d)

/-- The character that stands for an escaped one. -/
def unescape? : Char → Option Char
  | '"' => some '"'
  | '\\' => some '\\'
  | '/' => some '/'
  | 'b' => some '\x08'
  | 'f' => some '\x0c'
  | 'n' => some '\n'
  | 'r' => some '\r'
  | 't' => some '\t'
  | _ => none

/-- The character with a given number, unless it is half of a pair. -/
def charOf? (n : Nat) : Option Char := if n.isValidChar then some (Char.ofNat n) else none

/-- The character that the two halves of a pair stand for. -/
def pairOf? (high low : Nat) : Option Char :=
  if 0xD800 ≤ high ∧ high < 0xDC00 ∧ 0xDC00 ≤ low ∧ low < 0xE000 then
    charOf? (0x10000 + 0x400 * (high - 0xD800) + (low - 0xDC00))
  else none

/-- Reads a text up to and including the quote that closes it. -/
def readText (cs : List Char) : Option (Taken (List Char) cs) :=
  match cs with
  | '"' :: rest => some ⟨[], rest, by simp⟩
  | '\\' :: 'u' :: a :: b :: c :: d :: rest => do
    let n ← hex4? a b c d
    match charOf? n with
    | some x =>
      let more ← readText rest
      return ⟨x :: more.value, more.rest, by have := more.lt; simp; omega⟩
    | none =>
      match _h : rest with
      | '\\' :: 'u' :: a' :: b' :: c' :: d' :: rest' =>
        let x ← pairOf? n (← hex4? a' b' c' d')
        let more ← readText rest'
        return ⟨x :: more.value, more.rest, by have := more.lt; simp [_h]; omega⟩
      | _ => none
  | '\\' :: c :: rest => do
    let x ← unescape? c
    let more ← readText rest
    return ⟨x :: more.value, more.rest, by have := more.lt; simp; omega⟩
  | c :: rest =>
    if c.toNat < 0x20 then none
    else do
      let more ← readText rest
      return ⟨c :: more.value, more.rest, by have := more.lt; simp; omega⟩
  | [] => none
termination_by cs.length
decreasing_by all_goals (simp [*]; try omega)

/-! ### Rows and records -/

/-- The blanks between data. -/
def isSpace (c : Char) : Bool := c == ' ' || c == '\t' || c == '\n' || c == '\r'

/-- The text from its first character that is no blank. -/
def skip (cs : List Char) : List Char := cs.dropWhile isSpace

theorem length_skip_le (cs : List Char) : (skip cs).length ≤ cs.length :=
  (List.dropWhile_sublist isSpace).length_le

/-- A word with a meaning of its own. -/
def word? (s : List Char) : Option Datum :=
  if s = ['n', 'u', 'l', 'l'] then some .null
  else if s = ['t', 'r', 'u', 'e'] then some (.truth true)
  else if s = ['f', 'a', 'l', 's', 'e'] then some (.truth false)
  else none

mutual

/-- Reads a datum and the blanks before it. -/
def read (cs : List Char) : Option (Taken Datum cs) :=
  match h : skip cs with
  | '[' :: rest => do
    have skip_le := length_skip_le cs
    match h' : skip rest with
    | ']' :: after =>
      return ⟨.row [], after, by
        have := length_skip_le rest
        simp [h, h'] at *; omega⟩
    | _ =>
      let items ← readItems rest
      return ⟨.row items.value, items.rest, by
        have := items.lt
        simp [h] at *; omega⟩
  | '{' :: rest => do
    have skip_le := length_skip_le cs
    match h' : skip rest with
    | '}' :: after =>
      return ⟨.record [], after, by
        have := length_skip_le rest
        simp [h, h'] at *; omega⟩
    | _ =>
      let fields ← readFields rest
      return ⟨.record fields.value, fields.rest, by
        have := fields.lt
        simp [h] at *; omega⟩
  | '"' :: rest => do
    let s ← readText rest
    return ⟨.text (String.ofList s.value), s.rest, by
      have := length_skip_le cs; have := s.lt
      simp [h] at *; omega⟩
  | c :: rest =>
    if isNumberChar c then do
      let d ← number? (c :: rest.takeWhile isNumberChar)
      return ⟨d, rest.dropWhile isNumberChar, by
        have := length_skip_le cs
        have := (List.dropWhile_sublist isNumberChar (l := rest)).length_le
        simp [h] at *; omega⟩
    else do
      let d ← word? (c :: rest.takeWhile Char.isAlpha)
      return ⟨d, rest.dropWhile Char.isAlpha, by
        have := length_skip_le cs
        have := (List.dropWhile_sublist Char.isAlpha (l := rest)).length_le
        simp [h] at *; omega⟩
  | [] => none
termination_by 2 * cs.length
decreasing_by
  · simp [h] at skip_le; omega
  · simp [h] at skip_le; omega

/-- Reads the items of a row, at least one of them, and the bracket that closes it. -/
def readItems (cs : List Char) : Option (Taken (List Datum) cs) := do
  let first ← read cs
  match h : skip first.rest with
  | ']' :: after =>
    return ⟨[first.value], after, by
      have := length_skip_le first.rest; have := first.lt
      simp [h] at *; omega⟩
  | ',' :: rest =>
    have skip_le := length_skip_le first.rest
    let more ← readItems rest
    return ⟨first.value :: more.value, more.rest, by
      have := first.lt; have := more.lt
      simp [h] at *; omega⟩
  | _ => none
termination_by 2 * cs.length + 1
decreasing_by
  · omega
  · have := first.lt
    simp [h] at skip_le; omega

/-- Reads the fields of a record, at least one of them, and the bracket that closes it. -/
def readFields (cs : List Char) : Option (Taken (List (String × Datum)) cs) :=
  match h : skip cs with
  | '"' :: rest => do
    have skip_le := length_skip_le cs
    let name ← readText rest
    match h' : skip name.rest with
    | ':' :: rest' =>
      have skip_le' := length_skip_le name.rest
      let value ← read rest'
      match h'' : skip value.rest with
      | '}' :: after =>
        return ⟨[(String.ofList name.value, value.value)], after, by
          have := length_skip_le value.rest; have := name.lt; have := value.lt
          simp [h, h', h''] at *; omega⟩
      | ',' :: rest'' =>
        have skip_le'' := length_skip_le value.rest
        let more ← readFields rest''
        return ⟨(String.ofList name.value, value.value) :: more.value, more.rest, by
          have := name.lt; have := value.lt; have := more.lt
          simp [h, h', h''] at *; omega⟩
      | _ => none
    | _ => none
  | _ => none
termination_by 2 * cs.length + 1
decreasing_by
  · have := name.lt
    simp [h, h'] at *; omega
  · have := name.lt; have := value.lt
    simp [h, h', h''] at *; omega

end

/-- The datum that a whole text is. -/
def ofJson (text : List Char) : Option Datum := do
  let d ← read text
  if (skip d.rest).isEmpty then some d.value else none

mutual

/-- Whether no record in a datum has two fields of one name. -/
def hasDistinctNames : Datum → Bool
  | .row items => haveDistinctNames items
  | .record fields => decide (fields.map Prod.fst).Nodup && fieldsHaveDistinctNames fields
  | _ => true

/-- The same for the items of a row. -/
def haveDistinctNames : List Datum → Bool
  | [] => true
  | d :: ds => d.hasDistinctNames && haveDistinctNames ds

/-- The same for the fields of a record. -/
def fieldsHaveDistinctNames : List (String × Datum) → Bool
  | [] => true
  | (_, d) :: fields => d.hasDistinctNames && fieldsHaveDistinctNames fields

end

end FieldLang.Datum
