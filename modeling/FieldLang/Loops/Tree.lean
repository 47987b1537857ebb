/-
Loops in a source text, and reading them.

A source text may hold loops `@3{...}` and `@xyz{...}`, whose bodies are repeated before the
text is read as a program. Everything between loops is copied.

* `Fragment` : a piece of text, a loop over the numbers up to a count, or a loop over letters;
* `LoopError` : what is wrong with a loop, and at which offset;
* `fragments` : the fragments of a source text.

Design notes: inside a body braces are counted, so a body ends at the brace that closes it;
at the top level a brace is text. The reader returns what it left unread together with a
proof that it is no longer than what it was given, and recursion is on that length. How deep it may go
is left out: a host with a bounded stack fails where loops are nested deeply enough, and so do its later
stages where a program is.
-/
import FieldLang.Diagnostic.Basic
import FieldLang.Decimal.Reader
import FieldLang.Text.Quoted

namespace FieldLang.Loops

/-- A piece of a source text. The offset of a loop is that of its `@`. -/
inductive Fragment where
  | plain (text : List Char)
  | counted (count : Nat) (body : List Fragment) (offset : Nat)
  | lettered (letters : List Char) (body : List Fragment) (offset : Nat)
deriving Repr

/-- What can be wrong with a loop. -/
inductive LoopFault where
  | noBody (spec : List Char)
  | noSpec
  | unterminated (spec : List Char)
  | mixedSpec (spec : List Char)
  | hugeCount (digits : Nat)
  | strayEnd
  | promoted (diagnostic : Diagnostic)
deriving Repr, DecidableEq

/-- A fault and the offset of the loop that has it. -/
structure LoopError where
  fault : LoopFault
  position : Option Nat
deriving Repr, DecidableEq

/-- The most digits that a count may have. -/
def maxCountDigits : Nat := Decimal.maxIntegerDigits

/-- The wording of a fault. -/
def LoopFault.text : LoopFault → String
  | noBody spec =>
    "Macro " ++ Text.quote (String.ofList ('@' :: spec)) ++ " must be followed by '\x7b'"
  | noSpec => "Macro has an empty loop spec"
  | unterminated spec => "Unterminated body for macro '@" ++ String.ofList spec ++ "'"
  | mixedSpec spec =>
    "Macro spec " ++ Text.quote (String.ofList spec)
      ++ " must be a decimal count or a run of letters"
  | hugeCount digits =>
    "Exceeds the limit (" ++ toString maxCountDigits ++ " digits) for integer string conversion: "
      ++ "value has " ++ toString digits
      ++ " digits; use sys.set_int_max_str_digits() to increase the limit"
  | strayEnd => "Unexpected end of macro body"
  | promoted d => d.message

/-- The wording of an error. A count that is too long is reported without an offset. -/
def LoopError.message (e : LoopError) : String := located e.fault.text e.position

/-- Puts a character in front of fragments, into the piece of text they begin with. -/
def consChar (c : Char) : List Fragment → List Fragment
  | .plain text :: rest => .plain (c :: text) :: rest
  | rest => .plain [c] :: rest

/-- The loop that a spec and a body make. -/
def loopOf (spec : List Char) (body : List Fragment) (offset : Nat) : Except LoopError Fragment :=
  if spec.all Char.isDigit then
    if maxCountDigits < spec.length then .error ⟨.hugeCount spec.length, none⟩
    else .ok (.counted (Decimal.ofDigits spec) body offset)
  else if spec.all Char.isAlpha then .ok (.lettered spec body offset)
  else .error ⟨.mixedSpec spec, some offset⟩

/-- Fragments read from the front of `text`, and what is left unread. -/
structure Read (text : List Char) where
  fragments : List Fragment
  rest : List Char
  le : rest.length ≤ text.length

/-- The reading that takes nothing. -/
def Read.nothing (text : List Char) : Read text := ⟨[], text, Nat.le_refl _⟩

/-- The reading of a text that goes on with a character in front of it. -/
def Read.char {tail : List Char} (c : Char) (more : Read tail) : Read (c :: tail) :=
  ⟨consChar c more.fragments, more.rest, Nat.le_succ_of_le more.le⟩

/-- The reading of a text that goes on, behind a loop, with a shorter one. -/
def Read.loop {text after : List Char} (loop : Fragment) (more : Read after)
    (h : after.length ≤ text.length) : Read text :=
  ⟨loop :: more.fragments, more.rest, Nat.le_trans more.le h⟩

/-- Reads fragments that begin at `offset`. In a body, `depth` braces are open, and reading
stops at the brace that closes the body. -/
def read (inBody : Bool) (depth offset : Nat) (text : List Char) : Except LoopError (Read text) :=
  match text with
  | [] => .ok (.nothing [])
  | c :: tail =>
    if c = '@' then
      let spec := tail.takeWhile Char.isAlphanum
      match h : tail.dropWhile Char.isAlphanum with
      | '{' :: inner => do
        have inner_lt : inner.length < tail.length := by
          have := (List.dropWhile_sublist Char.isAlphanum (l := tail)).length_le
          rw [h, List.length_cons] at this
          omega
        if spec = [] then .error ⟨.noSpec, some offset⟩
        else
          let start := offset + spec.length + 2
          let body ← read true 0 start inner
          match hr : body.rest with
          | [] => .error ⟨.unterminated spec, some offset⟩
          | _ :: after => do
            have after_lt : after.length < inner.length := by
              have := body.le
              rw [hr, List.length_cons] at this
              omega
            have whole_le : after.length ≤ (c :: tail).length := by
              rw [List.length_cons]
              omega
            let loop ← loopOf spec body.fragments offset
            let more ← read inBody depth (start + (inner.length - after.length)) after
            .ok (more.loop loop whole_le)
      | _ => .error ⟨.noBody spec, some offset⟩
    else if inBody = true ∧ c = '}' ∧ depth = 0 then .ok (.nothing (c :: tail))
    else do
      let depth := if c = '{' then depth + 1 else if c = '}' then depth - 1 else depth
      let more ← read inBody depth (offset + 1) tail
      .ok (more.char c)
termination_by text.length
decreasing_by all_goals (rw [List.length_cons]; omega)

/-- The fragments of a source text, all of which must have been read. -/
def fragments (source : List Char) : Except LoopError (List Fragment) := do
  let r ← read false 0 0 source
  match r.rest with
  | [] => return r.fragments
  | _ :: _ => .error ⟨.strayEnd, some (source.length - r.rest.length)⟩

end FieldLang.Loops
