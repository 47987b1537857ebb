/-
Calls of functions of the array library.

* `wholeResults?` : the results of a function that yields whole numbers for whole numbers;
* `callBuiltin` : a function of some arguments.

Design notes: the result for doubles is that of the function's meaning, component by
component. A component is whole if all arguments are that it depends on and the function
keeps whole numbers. A function made of operators alone yields a plain number for plain ones.
-/
import FieldLang.Host.Operator

namespace FieldLang

/-- The remainder of a division that rounds toward zero; zero for a division by zero. -/
def wordRemainder (a b : Int) : Int := if b = 0 then 0 else a.tmod b

/-- The smaller of two whole numbers. -/
def lesser (a b : Int) : Int := if a ≤ b then a else b

/-- The larger of two whole numbers. -/
def greater (a b : Int) : Int := if a ≤ b then b else a

/-- The products of the first half of some numbers with the second half, summed up. -/
def wordDot (xs : List Int) : Int :=
  let half := xs.length / 2
  (List.zipWith (· * ·) (xs.take half) (xs.drop half)).foldl (· + ·) 0

/-- The results of a function for whole numbers, if it yields whole numbers for them. -/
def wholeResults? : Builtin → List Int → Option (List Int)
  | .abs, [a] => some [a.natAbs]
  | .sign, [a] => some [a.sign]
  | .floor, [a] | .ceil, [a] | .trunc, [a] => some [a]
  | .fract, [_] => some [0]
  | .mod, [a, b] => some [wordRemainder (wordRemainder a b + b) b]
  | .min, [a, b] => some [lesser a b]
  | .max, [a, b] => some [greater a b]
  | .pow, [a, b] => some [Int.pow a b.toNat]
  | .clamp, [a, lo, hi] => some [lesser (greater a lo) hi]
  | .union, a :: rest => some [rest.foldl lesser a]
  | .intersect, a :: rest => some [rest.foldl greater a]
  | .dot, xs => some [wordDot xs]
  | .cross, [x, y, z, x', y', z'] => some [y * z' - z * y', z * x' - x * z', x * y' - y * x']
  | .rot, [x, y, c, s] => some [c * x + s * y, c * y - s * x]
  | .addMul, [x, y, a, b, t] => some [x + a * t, y + b * t]
  | .addMul, [x, y, z, a, b, c, t] => some [x + a * t, y + b * t, z + c * t]
  | _, _ => none

/-- Functions that are made of operators alone. -/
def Builtin.operatorsOnly : Builtin → Bool
  | .mix | .rot | .addMul => true
  | _ => false

/-- The combinators hand back a single distance as it is. -/
def soleDistance? : Builtin → List HostValue → Option HostValue
  | .union, [v] | .intersect, [v] => some v
  | .roundMin, [v] | .roundMax, [v] => some v
  | .roundMin, [v, _] | .roundMax, [v, _] => some v
  | _, _ => none

/-- The number at a place of the result, computed from some arguments. -/
def componentValue {n : Nat} (f : Builtin) (args : List HostValue) (xs : Vector Float n)
    (place : Nat) (c : Component n) : HostValue :=
  let used := c.uses.map fun j => args.getD j.val (.real .array 0)
  let origin :=
    if f.operatorsOnly then used.foldl (fun o v => o.join v.origin) .plain else .array
  let wholes := if used.all fun v => v.toInt?.isSome
    then wholeResults? f (args.map fun v => v.toInt?.getD 0) else none
  match wholes.bind fun ns => ns[place]? with
  | some n => .whole origin (if origin = .array then wrapWord n else n)
  | none => .real origin (c.value xs)

/-- Whether whole numbers are to be raised to a negative power. -/
def raisesToNegative : Builtin → List HostValue → Bool
  | .pow, [v, w] => v.toInt?.isSome && (w.toInt?.map fun n => decide (n < 0)).getD false
  | _, _ => false

/-- The number that an argument counts as. -/
def argumentNumber : HostValue → Except HostFault Float
  | .tuple _ | .list _ => .error .severalNumbers
  | v => v.toFloat

/-- A function of the array library of some arguments. -/
def callBuiltin (f : Builtin) (args : List HostValue) : Except HostFault HostValue :=
  match soleDistance? f args with
  | some v => .ok v
  | none => do
    let xs ← args.mapM argumentNumber
    if raisesToNegative f args then .error .negativeExponent
    else
      let m ← (f.hostMeaning xs.length).mapError .call
      match f.octaveArgument xs.length with
      | some i => (checkOctavesAt xs[i]).mapError .call
      | none => pure ()
      let v : Vector Float xs.length := ⟨xs.toArray, by simp⟩
      match m with
      | .scalar c => return componentValue f args v 0 c
      | .vector cs => return .tuple (cs.mapIdx fun i c => componentValue f args v i c)

end FieldLang
