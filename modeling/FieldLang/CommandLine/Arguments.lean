/-
Arguments of a command.

* `OptionForm` : the names of an option, and how many values it takes;
* `Given` : the options that were given, with their values;
* `readArguments` : the options and the other arguments of a command.

Design notes: options and other arguments may be mixed. The value of an option follows it,
or stands behind an equals sign, or behind the letter of a short option; whatever follows
two hyphens is no option.
-/
import FieldLang.Syntax.Reading

namespace FieldLang

/-- The names of an option, and how many values it takes. -/
structure OptionForm where
  names : List String
  arity : Nat := 1
deriving Repr, DecidableEq

/-- The name that an option is filed under. -/
def OptionForm.key (form : OptionForm) : String := form.names.headD ""

/-- The options that were given, in order, with their values. -/
abbrev Given := List (String × List String)

namespace Given

/-- The values of each use of an option. -/
def uses (given : Given) (key : String) : List (List String) :=
  (given.filter fun entry => entry.1 == key).map Prod.snd

/-- The value of the last use of an option. -/
def last? (given : Given) (key : String) : Option String :=
  (given.uses key).getLast?.bind List.head?

/-- Whether an option was given. -/
def has (given : Given) (key : String) : Bool := !(given.uses key).isEmpty

end Given

/-- An option with its values from what is attached to it and the arguments behind it. An
option without values has nothing attached. -/
def takeValues (form : OptionForm) (attached : Option String) (rest : List String) :
    Option (Kept (String × List String) rest) :=
  match attached with
  | none =>
    if rest.length < form.arity then none
    else some ⟨(form.key, rest.take form.arity), rest.drop form.arity, by simp⟩
  | some value =>
    if form.arity = 0 ∨ rest.length + 1 < form.arity then none
    else
      some ⟨(form.key, value :: rest.take (form.arity - 1)), rest.drop (form.arity - 1), by simp⟩

/-- The option with a given name. -/
def findForm (forms : List OptionForm) (name : String) : Option OptionForm :=
  forms.find? fun form => form.names.contains name

/-- Reads options of one letter each that are written together. -/
def readLetters (forms : List OptionForm) (rest : List String) :
    List Char → Option (Kept Given rest)
  | [] => some ⟨[], rest, Nat.le_refl _⟩
  | c :: letters => do
    let form ← findForm forms (String.ofList ['-', c])
    if form.arity = 0 then
      let more ← readLetters forms rest letters
      return ⟨(form.key, []) :: more.value, more.rest, more.le⟩
    else
      let attached := if letters.isEmpty then none else some (String.ofList letters)
      let taken ← takeValues form attached rest
      return ⟨[taken.value], taken.rest, taken.le⟩

/-- Reads an argument that begins with a hyphen. -/
def readOption (forms : List OptionForm) (arg : List Char) (rest : List String) :
    Option (Kept Given rest) :=
  if ['-', '-'].isPrefixOf arg then do
    let name := arg.takeWhile (· != '=')
    let attached := if '=' ∈ arg
      then some (String.ofList ((arg.dropWhile (· != '=')).drop 1)) else none
    let form ← findForm forms (String.ofList name)
    let taken ← takeValues form attached rest
    return ⟨[taken.value], taken.rest, taken.le⟩
  else readLetters forms rest (arg.drop 1)

/-- The options and the other arguments of a command; none if an option is unknown, lacks a
value or has one too many. -/
def readArguments (forms : List OptionForm) (args : List String) :
    Option (Given × List String) :=
  match args with
  | [] => some ([], [])
  | arg :: rest =>
    if arg = "--" then some ([], rest)
    else if arg.toList.head? = some '-' ∧ arg ≠ "-" then do
      let taken ← readOption forms arg.toList rest
      let (given, others) ← readArguments forms taken.rest
      return (taken.value ++ given, others)
    else do
      let (given, others) ← readArguments forms rest
      return (given, arg :: others)
termination_by args.length
decreasing_by
  · have := taken.le
    simp; omega
  · simp

end FieldLang
