/-
Unrolling loops.

The body of a loop is unrolled before its own placeholders are filled in, so the inner
loops of a body resolve first. In a body `$` stands for the current item of the loop, `$$`
for the next and `$$$` for the one after that, the items being read as a ring.

* `fill` : a body with its placeholders filled in;
* `unrollLoop` : a body repeated over a ring of items;
* `Fragment.unroll` : the text of a fragment, with the warnings about letter loops;
* `expand` : a source text without loops.
-/
import FieldLang.Diagnostic.Policy
import FieldLang.Decimal.Notation
import FieldLang.Loops.Tree

namespace FieldLang.Loops

/-- Replaces every placeholder, the longest first. -/
def fill (current next afterNext : List Char) : List Char → List Char
  | '$' :: '$' :: '$' :: rest => afterNext ++ fill current next afterNext rest
  | '$' :: '$' :: rest => next ++ fill current next afterNext rest
  | '$' :: rest => current ++ fill current next afterNext rest
  | c :: rest => c :: fill current next afterNext rest
  | [] => []

/-- The text without the qualifier `Math.`, which sources written for another host carry. -/
def dropQualifier : List Char → List Char
  | 'M' :: 'a' :: 't' :: 'h' :: '.' :: rest => dropQualifier rest
  | c :: rest => c :: dropQualifier rest
  | [] => []

/-- The body once for each of `n` items, with the placeholders filled in from the ring. -/
def unrollLoop (n : Nat) (item : Nat → List Char) (body : List Char) : List Char :=
  (List.range n).flatMap fun i => fill (item i) (item ((i + 1) % n)) (item ((i + 2) % n)) body

/-- The warnings about a loop over letters with a given unrolled body. -/
def letterWarnings (letters body : List Char) (offset : Nat) : List Diagnostic :=
  let name := "'@" ++ String.ofList letters ++ "'"
  (if '$' ∈ body then []
   else [⟨.unusedLetter, "Body of macro " ++ name ++ " never uses a '$' placeholder", some offset⟩])
  ++ (if letters.Nodup then []
      else [⟨.repeatedLetter, "Macro " ++ name ++ " repeats a letter", some offset⟩])

/-- Reports diagnostics one after the other. -/
def reportAll (policy : Option Policy) : List Diagnostic → Reporting LoopError Unit
  | [] => pure ()
  | d :: ds => do
    report policy d fun d => ⟨.promoted d, d.position⟩
    reportAll policy ds

mutual

/-- The text that a fragment stands for. -/
def Fragment.unroll (policy : Option Policy) : Fragment → Reporting LoopError (List Char)
  | .plain text => pure (dropQualifier text)
  | .counted count body _ => do
    let body ← unrollAll policy body
    return unrollLoop count (fun i => Decimal.natText (i + 1)) body
  | .lettered letters body offset => do
    let body ← unrollAll policy body
    reportAll policy (letterWarnings letters body offset)
    return unrollLoop letters.length (fun i => [letters.getD i ' ']) body

/-- The text that a row of fragments stands for. -/
def unrollAll (policy : Option Policy) : List Fragment → Reporting LoopError (List Char)
  | [] => pure []
  | f :: fs => do
    let first ← f.unroll policy
    let rest ← unrollAll policy fs
    return first ++ rest

end

/-- A source text with its loops unrolled. -/
def expand (policy : Option Policy) (source : List Char) : Reporting LoopError (List Char) := do
  let fs ← Reporting.ofExcept (fragments source)
  unrollAll policy fs

end FieldLang.Loops
