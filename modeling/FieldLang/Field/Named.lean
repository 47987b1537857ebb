/-
Functions by their names.

* `namedMeaning?` : the meaning of a building block, by its name;
* `hostFunction?` : the meaning of a function of generated code, by its name;
* `octavePlace` : the place of the argument that counts octaves;
* `register` : a table of functions with their argument counts, checked for completeness.
-/
import FieldLang.Field.Function
import FieldLang.Text.Quoted

namespace FieldLang

/-- The meaning of a function for each number of arguments. -/
abbrev Meanings := (n : Nat) → Except CallError (Meaning n)

/-- The meaning of a building block. -/
def namedMeaning? (name : String) : Option Meanings :=
  match name with
  | "fract" => some (Meaning.unary name Scalar.fract)
  | "modulo" => some (Meaning.binary name Double.modulo)
  | "round_half_away" => some (Meaning.unary name Double.roundHalfAway)
  | "clamp" => some (Meaning.ternary name Scalar.clamp)
  | "mix" => some (Meaning.ternary name Scalar.mix)
  | "smoothstep" => some (Meaning.ternary name Field.smoothstep)
  | "triangle" => some (Meaning.unary name Field.triangle)
  | "fake_sine" => some (Meaning.unary name Field.fakeSine)
  | "corner" => some (Meaning.binary name Field.corner)
  | "smooth_min" => some (Meaning.ternary name Field.smoothMin)
  | "smooth_max" => some (Meaning.ternary name Field.smoothMax)
  | "smooth_abs" => some (Meaning.binary name Field.smoothAbs)
  | "poly_smooth_abs" => some (Meaning.binary name Field.polySmoothAbs)
  | "smooth_clamp" => some (Meaning.quaternary name Field.smoothClamp)
  | "poly_smooth_clamp" => some (Meaning.quaternary name Field.polySmoothClamp)
  | "union" => some (Meaning.folded Field.union)
  | "intersect" => some (Meaning.folded Field.intersect)
  | "round_min" => some (Meaning.blended Field.roundMin)
  | "round_max" => some (Meaning.blended Field.roundMax)
  | "torus" => some Meaning.ring
  | "box2" => some Meaning.rectangle
  | "box3" => some Meaning.box
  | "rotate_turns" => some (Meaning.turn name)
  | "rot" => some Meaning.rotated
  | "add_mul" => some Meaning.moved
  | "hash3" => some Meaning.hashed
  | "lattice_noise" => some (Meaning.ternary name Field.latticeNoise)
  | "value_noise" => some Meaning.spaceNoise
  | _ => none

/-- The meaning of a function of generated code. -/
def hostFunction? (name : String) : Option Meanings :=
  (Builtin.all.find? fun f => f.name == name).map Builtin.hostMeaning

/-- The place of the argument that counts octaves in a call with `n` arguments. -/
def octavePlace (name : String) (n : Nat) : Option Nat :=
  if name == "value_noise" && n == 6 then some 5 else none

/-! ### The table of functions -/

/-- What is wrong with a table of functions. -/
inductive RegistryError where
  | duplicate (f : Builtin)
  | noCount (f : Builtin)
  | missing (fs : List Builtin)
deriving Repr, DecidableEq

/-- The wording of an error. -/
def RegistryError.message : RegistryError → String
  | duplicate f => "Duplicate builtin registration: " ++ f.tag
  | noCount f => "Builtin " ++ f.tag ++ " accepts no argument count"
  | missing fs =>
    let tags := (fs.map Builtin.tag).mergeSort fun a b => !(b < a)
    "Unregistered builtins: [" ++ ", ".intercalate (tags.map Text.quote) ++ "]"

/-- Adds entries to a table in which every function may stand once, with some count. -/
def registerFrom (table : List (Builtin × Arity)) :
    List (Builtin × Arity) → Except RegistryError (List (Builtin × Arity))
  | [] => .ok table
  | (f, arity) :: rest =>
    if table.any fun entry => entry.1 == f then .error (.duplicate f)
    else if arity == .oneOf [] then .error (.noCount f)
    else registerFrom (table ++ [(f, arity)]) rest

/-- A table with every function in it. -/
def register (entries : List (Builtin × Arity)) :
    Except RegistryError (List (Builtin × Arity)) := do
  let table ← registerFrom [] entries
  match Builtin.all.filter fun f => !table.any fun entry => entry.1 == f with
  | [] => return table
  | fs => .error (.missing fs)

end FieldLang
