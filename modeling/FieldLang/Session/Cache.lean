/-
Remembering parsed programs.

* `Key` : a source text and the policy it was read under;
* `Cache` : the programs read last, the most recently used one first;
* `Cache.parse` : reading a source text through the cache.

Design notes: a cache holds at most `capacity` programs and forgets the one whose use is
longest ago. A text that cannot be read is not remembered. A remembered program is handed
out without its diagnostics.
-/
import FieldLang.Syntax.Parser

namespace FieldLang

/-- A source text and the policy it was read under. -/
structure Key where
  source : List Char
  policy : Option Policy
deriving DecidableEq

/-- Programs with their keys, the most recently used one first. -/
structure Cache where
  entries : List (Key × Program)

namespace Cache

/-- How many programs are remembered. -/
def capacity : Nat := 256

/-- The cache that remembers nothing. -/
def empty : Cache := ⟨[]⟩

/-- The program remembered under a key. -/
def get? (cache : Cache) (key : Key) : Option Program :=
  (cache.entries.find? fun entry => entry.1 == key).map Prod.snd

/-- The cache after a program was used under a key. -/
def touch (cache : Cache) (key : Key) (program : Program) : Cache :=
  ⟨((key, program) :: cache.entries.filter fun entry => entry.1 != key).take capacity⟩

/-- What reading a text through the cache gives. -/
structure Lookup where
  /-- Whether the program was remembered. -/
  hit : Bool
  answer : Reporting SourceError Program
  cache : Cache

/-- Reads a source text, unless its program is remembered. -/
def parse (cache : Cache) (policy : Option Policy) (source : List Char) : Lookup :=
  let key : Key := ⟨source, policy⟩
  match cache.get? key with
  | some program => ⟨true, pure program, cache.touch key program⟩
  | none =>
    let answer := FieldLang.parse policy source
    match answer.outcome with
    | .ok program => ⟨false, answer, cache.touch key program⟩
    | .error _ => ⟨false, answer, cache⟩

end Cache

end FieldLang
