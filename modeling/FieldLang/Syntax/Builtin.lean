/-
The builtin functions of the language.

* `Builtin` : the functions;
* `Builtin.name`, `Builtin.tag` : their long names in lower and upper case;
* `mnemonics` : the names that programs call them by;
* `Builtin.variadic` : the combinators, which take any number of distances;
* `Arity` : the argument counts a function accepts, and their wording.

Design notes: several mnemonics may name one function; the first one in the table is the
one that programs are written back with.
-/

namespace FieldLang

/-- A builtin function. -/
inductive Builtin where
  | sin | cos | tan | asin | acos | atan | atan2
  | sinh | cosh | tanh | asinh | acosh | atanh
  | exp | exp2 | log | log2 | pow | sqrt
  | abs | sign | floor | ceil | trunc | fract | round | mod
  | min | max | clamp | mix | smoothstep
  | length | distance | dot | cross | normalize
  | union | intersect | roundMin | roundMax
  | torus | box2 | box3 | valueNoise
  | rot0 | rot1 | rot
  | triangle | corner | hash | addMul | fakeSine
  | smoothAbs | polySmoothAbs | smoothClamp | polySmoothClamp
deriving Repr, DecidableEq

namespace Builtin

/-- Every builtin function. -/
def all : List Builtin :=
  [sin, cos, tan, asin, acos, atan, atan2, sinh, cosh, tanh, asinh, acosh, atanh, exp, exp2,
   log, log2, pow, sqrt, abs, sign, floor, ceil, trunc, fract, round, mod, min, max, clamp, mix,
   smoothstep, length, distance, dot, cross, normalize, union, intersect, roundMin, roundMax,
   torus, box2, box3, valueNoise, rot0, rot1, rot, triangle, corner, hash, addMul, fakeSine,
   smoothAbs, polySmoothAbs, smoothClamp, polySmoothClamp]

/-- The long name, which is also the name of the function in generated code. -/
def name : Builtin → String
  | sin => "sin" | cos => "cos" | tan => "tan" | asin => "asin" | acos => "acos"
  | atan => "atan" | atan2 => "atan2" | sinh => "sinh" | cosh => "cosh" | tanh => "tanh"
  | asinh => "asinh" | acosh => "acosh" | atanh => "atanh" | exp => "exp" | exp2 => "exp2"
  | log => "log" | log2 => "log2" | pow => "pow" | sqrt => "sqrt" | abs => "abs"
  | sign => "sign" | floor => "floor" | ceil => "ceil" | trunc => "trunc" | fract => "fract"
  | round => "round" | mod => "mod" | min => "min" | max => "max" | clamp => "clamp"
  | mix => "mix" | smoothstep => "smoothstep" | length => "length" | distance => "distance"
  | dot => "dot" | cross => "cross" | normalize => "normalize" | union => "union"
  | intersect => "intersect" | roundMin => "round_min" | roundMax => "round_max"
  | torus => "torus" | box2 => "box2" | box3 => "box3" | valueNoise => "value_noise"
  | rot0 => "rot0" | rot1 => "rot1" | rot => "rot" | triangle => "triangle"
  | corner => "corner" | hash => "hash" | addMul => "add_mul" | fakeSine => "fake_sine"
  | smoothAbs => "smooth_abs" | polySmoothAbs => "poly_smooth_abs"
  | smoothClamp => "smooth_clamp" | polySmoothClamp => "poly_smooth_clamp"

/-- The long name in upper case. -/
def tag (f : Builtin) : String := f.name.map Char.toUpper

/-- The function with a given tag. -/
def ofTag? (tag : String) : Option Builtin := all.find? fun f => f.tag == tag

/-- The combinators, which fold any number of distances into one. -/
def variadic : Builtin → Bool
  | union | intersect | roundMin | roundMax => true
  | _ => false

theorem mem_all (f : Builtin) : f ∈ all := by cases f <;> decide

end Builtin

/-- The names that programs call functions by. -/
def mnemonics : List (String × Builtin) :=
  [("sin", .sin), ("cos", .cos), ("tan", .tan), ("atan2", .atan2), ("exp", .exp),
   ("exp2", .exp2), ("log", .log), ("log2", .log2), ("pow", .pow), ("sqrt", .sqrt),
   ("abs", .abs), ("sign", .sign), ("floor", .floor), ("ceil", .ceil), ("fract", .fract),
   ("FR", .fract), ("mod", .mod), ("min", .min), ("max", .max), ("cl", .clamp), ("mix", .mix),
   ("B", .abs), ("SM", .smoothstep), ("L", .length), ("H", .distance), ("A", .addMul),
   ("D", .dot), ("X", .cross), ("N", .normalize), ("U", .union), ("G", .intersect),
   ("Z", .floor), ("nz", .valueNoise), ("don", .torus), ("bx2", .box2), ("bx3", .box3),
   ("r0", .rot0), ("r1", .rot1), ("TR", .triangle), ("k", .corner), ("sB", .smoothAbs),
   ("scl", .smoothClamp), ("rG", .roundMax), ("rmax", .roundMax), ("rU", .roundMin),
   ("rmin", .roundMin), ("acos", .acos), ("asin", .asin), ("atan", .atan), ("sinh", .sinh),
   ("cosh", .cosh), ("tanh", .tanh), ("trunc", .trunc), ("asinh", .asinh), ("acosh", .acosh),
   ("atanh", .atanh), ("qB", .polySmoothAbs), ("sabs", .smoothAbs), ("round", .round),
   ("qcl", .polySmoothClamp), ("g", .fakeSine), ("ri", .hash), ("rot", .rot)]

/-- The function that a name calls, if it is the name of one. -/
def Builtin.ofMnemonic? (name : String) : Option Builtin := mnemonics.lookup name

/-- The name that a function is written back with. -/
def Builtin.mnemonic (f : Builtin) : String :=
  match mnemonics.find? fun entry => entry.2 == f with
  | some entry => entry.1
  | none => f.name

/-- Every function has a mnemonic, and it names that function. -/
theorem Builtin.ofMnemonic?_mnemonic (f : Builtin) : ofMnemonic? f.mnemonic = some f := by
  cases f <;> decide

/-! ### Argument counts -/

/-- The argument counts that a function accepts. -/
inductive Arity where
  | oneOf (counts : List Nat)
  | atLeast (least : Nat)
deriving Repr, DecidableEq

namespace Arity

/-- Whether a count is accepted. -/
def accepts : Arity → Nat → Bool
  | oneOf counts, n => counts.contains n
  | atLeast least, n => least ≤ n

/-- The counts in words. -/
def describe : Arity → String
  | atLeast least => "at least " ++ toString least
  | oneOf counts =>
    match counts.reverse with
    | [] => ""
    | [n] => toString n
    | last :: others =>
      ", ".intercalate (others.reverse.map toString) ++ " or " ++ toString last

end Arity

/-- The argument counts of each function. -/
def Builtin.arity : Builtin → Arity
  | sin | cos | tan | asin | acos | atan | sinh | cosh | tanh | asinh | acosh | atanh
  | exp | exp2 | log | log2 | sqrt | abs | sign | floor | ceil | trunc | fract | round
  | triangle | fakeSine => .oneOf [1]
  | atan2 | pow | mod | min | max | corner | rot0 | rot1 | smoothAbs | polySmoothAbs =>
    .oneOf [2]
  | clamp | mix | smoothstep => .oneOf [3]
  | rot | smoothClamp | polySmoothClamp => .oneOf [4]
  | torus => .oneOf [5]
  | cross => .oneOf [6]
  | length | normalize | hash => .oneOf [2, 3]
  | box2 => .oneOf [3, 4]
  | distance | dot => .oneOf [4, 6]
  | box3 | valueNoise => .oneOf [4, 5, 6]
  | addMul => .oneOf [4, 5, 6, 7]
  | union | intersect => .atLeast 1
  | roundMin | roundMax => .atLeast 2

end FieldLang
