/-
Operators of the host language.

* `HostValue.arith` : sums, differences, products, quotients and powers;
* `HostValue.compare` : comparisons;
* `HostValue.neg` : the sign.

Design notes: plain whole numbers are computed and compared exactly. A plain power of a
negative number with a broken exponent is complex.
-/
import FieldLang.Eval.Run
import FieldLang.Host.Value

namespace FieldLang

/-- The number of words of 64 bits. -/
def wordCount : Nat := Nat.pow 2 64

/-- A whole number as a word of 64 bits, wrapping around. -/
def wrapWord (n : Int) : Int := n.bmod wordCount

/-- Whether a whole number fits into a word: the words lie evenly around zero. -/
def isWord (n : Int) : Bool := -(wordCount : Int) ≤ 2 * n && 2 * n < wordCount

namespace HostValue

/-! ### Arithmetic -/

/-- A plain power of two doubles. Only for a finite negative exponent zero has none. -/
def plainPower (x y : Float) : Except HostFault HostValue :=
  if x == 0 && y < 0 && Decimal.isFinite y then .error .zeroPower
  else if x < 0 && Decimal.isFinite x && Decimal.isFinite y && y.floor != y then .ok complex
  else
    let r := x.pow y
    if Decimal.isFinite x && Decimal.isFinite y && !Decimal.isFinite r then .error .powerTooLarge
    else .ok (real .plain r)

/-- An operator on plain doubles. -/
def plainReals (op : BinOp) (x y : Float) : Except HostFault HostValue :=
  match op with
  | .add => .ok (real .plain (x + y))
  | .sub => .ok (real .plain (x - y))
  | .mul => .ok (real .plain (x * y))
  | .div => if y == 0 then .error .quotientByZero else .ok (real .plain (x / y))
  | .pow => plainPower x y
  | op => .error (.operands op "float" "float")

/-- The double nearest to a quotient. -/
def plainQuotient (a b : Int) : Except HostFault HostValue :=
  if b = 0 then .error .wholeQuotientByZero
  else
    let x := Decimal.ofRatio a.natAbs b.natAbs 0
    if Decimal.isFinite x then
      .ok (real .plain (if (a < 0) != (b < 0) then -x else x))
    else .error .quotientTooLarge

/-- An operator on plain whole numbers. -/
def plainWholes (op : BinOp) (a b : Int) : Except HostFault HostValue :=
  match op with
  | .add => .ok (whole .plain (a + b))
  | .sub => .ok (whole .plain (a - b))
  | .mul => .ok (whole .plain (a * b))
  | .div => plainQuotient a b
  | .pow =>
    if 0 ≤ b then .ok (whole .plain (Int.pow a b.toNat))
    else do plainPower (← wholeToFloat a) (← wholeToFloat b)
  | op => .error (.operands op "int" "int")

/-- An operator on doubles of the array library. -/
def arrayReals (op : BinOp) (x y : Float) : Except HostFault HostValue :=
  match op.arithmetic? with
  | some f => .ok (real .array (f x y))
  | none => .error (.operands op "numpy.float64" "numpy.float64")

/-- An operator on words. -/
def words (op : BinOp) (a b : Int) : Except HostFault HostValue :=
  match op with
  | .add => .ok (whole .array (wrapWord (a + b)))
  | .sub => .ok (whole .array (wrapWord (a - b)))
  | .mul => .ok (whole .array (wrapWord (a * b)))
  | .pow =>
    if 0 ≤ b then .ok (whole .array (wrapWord (Int.pow a b.toNat))) else .error .negativeExponent
  | op => do arrayReals op (← wholeToFloat a) (← wholeToFloat b)

/-- An operator on truth values of the array library: a sum holds if either does, a product
if both do. -/
def truths (op : BinOp) (a b : Bool) : Except HostFault HostValue :=
  match op with
  | .add => .ok (truth .array (a || b))
  | .sub => .error .truthDifference
  | .mul => .ok (truth .array (a && b))
  | op => words op (ofTruth a) (ofTruth b)

/-- An operator on two numbers. -/
def arithNumbers (op : BinOp) (v w : HostValue) : Except HostFault HostValue :=
  match v, w with
  | complex, _ | _, complex => .ok complex
  | v, w =>
    match v.origin.join w.origin, v.toInt?, w.toInt? with
    | .plain, some a, some b => plainWholes op a b
    | .array, some a, some b =>
      match v, w with
      | truth _ p, truth _ q => truths op p q
      | _, _ =>
        if !isWord a then .error (.wordTooLarge a)
        else if !isWord b then .error (.wordTooLarge b)
        else words op a b
    | .plain, _, _ => do plainReals op (← v.toFloat) (← w.toFloat)
    | .array, _, _ => do arrayReals op (← v.toFloat) (← w.toFloat)

/-- A row repeated; not at all for a negative count. -/
def repeated (n : Int) (items : List HostValue) : List HostValue :=
  (List.replicate n.toNat items).flatten

/-- An operator on any two values. Tuples are concatenated and repeated. -/
def arith (op : BinOp) (v w : HostValue) : Except HostFault HostValue :=
  if v.isNumber && w.isNumber then arithNumbers op v w
  else
    match op, v, w with
    | .add, tuple xs, tuple ys => .ok (tuple (xs ++ ys))
    | .mul, tuple xs, w =>
      match w.toInt? with
      | some n => .ok (tuple (repeated n xs))
      | none => .error (if w.origin = .array then .severalNumbers else .repetition w.typeName)
    | .mul, v, tuple ys =>
      match v.toInt? with
      | some n => .ok (tuple (repeated n ys))
      | none => .error (if v.origin = .array then .severalNumbers else .repetition v.typeName)
    | op, v, w =>
      if v.origin = .array ∨ w.origin = .array then .error .severalNumbers
      else
        match op, v with
        | .add, tuple _ => .error (.concatenation w.typeName)
        | op, v => .error (.operands op v.typeName w.typeName)

/-- The negative of a value. -/
def neg : HostValue → Except HostFault HostValue
  | truth .plain b => .ok (whole .plain (-ofTruth b))
  | truth .array _ => .error .truthSign
  | whole .plain n => .ok (whole .plain (-n))
  | whole .array n => .ok (whole .array (wrapWord (-n)))
  | real o x => .ok (real o (-x))
  | complex => .ok complex
  | v => .error (.sign v.typeName)

/-! ### Comparisons -/

/-- How two doubles compare, unless either is NaN. -/
def orderReals (x y : Float) : Option Ordering :=
  if x < y then some .lt else if y < x then some .gt else if x == y then some .eq else none

/-- How a whole number and a double compare, exactly. -/
def orderWholeReal (n : Int) (x : Float) : Option Ordering :=
  match Decimal.parts x with
  | .nan => none
  | .infinite negative => some (if negative then .gt else .lt)
  | .finite negative mag =>
    let m : Int := if negative then -mag.coeff else mag.coeff
    some (Ord.compare (n * Nat.pow 2 (-mag.exp).toNat) (m * Nat.pow 2 mag.exp.toNat))

/-- How two numbers compare. -/
def orderNumbers (v w : HostValue) : Except HostFault (Option Ordering) :=
  match v.origin.join w.origin, v.toInt?, w.toInt?, v, w with
  | _, some a, some b, _, _ => .ok (some (Ord.compare a b))
  | .plain, some a, none, _, real _ y => .ok (orderWholeReal a y)
  | .plain, none, some b, real _ x, _ => .ok ((orderWholeReal b x).map Ordering.swap)
  | _, _, _, v, w => do return orderReals (← v.toFloat) (← w.toFloat)

/-- Whether a comparison holds of values that compare in a given way. -/
def holds (op : BinOp) : Option Ordering → Bool
  | none => op == .notEq
  | some o =>
    match op with
    | .eq => o == .eq
    | .notEq => o != .eq
    | .greater => o == .gt
    | .greaterEq => o != .lt
    | .less => o == .lt
    | .lessEq => o != .gt
    | _ => false

mutual

/-- Whether two values are equal. -/
def same : HostValue → HostValue → Bool
  | tuple xs, tuple ys => sameAll xs ys
  | list xs, list ys => sameAll xs ys
  | function, function => true
  | nothing, nothing => true
  | v, w =>
    v.isNumber && w.isNumber &&
      match orderNumbers v w with
      | .ok o => holds .eq o
      | .error _ => false

/-- Whether two rows have equal items at every place. -/
def sameAll : List HostValue → List HostValue → Bool
  | [], [] => true
  | v :: vs, w :: ws => same v w && sameAll vs ws
  | _, _ => false

end

/-- The truth value of a comparison. -/
def compare (op : BinOp) (v w : HostValue) : Except HostFault HostValue :=
  match op, v, w with
  | .eq, complex, _ | .eq, _, complex => .ok (truth .plain false)
  | .notEq, complex, _ | .notEq, _, complex => .ok (truth .plain true)
  | op, complex, w => .error (.ordering op HostValue.complex.typeName w.typeName)
  | op, v, complex => .error (.ordering op v.typeName HostValue.complex.typeName)
  | op, v, w =>
    if v.isNumber && w.isNumber then do
      return truth (v.origin.join w.origin) (holds op (← orderNumbers v w))
    else if v.origin = .array ∨ w.origin = .array then .error .severalNumbers
    else
      match op with
      | .eq => .ok (truth .plain (same v w))
      | .notEq => .ok (truth .plain (!same v w))
      | op => .error (.ordering op v.typeName w.typeName)

end HostValue

end FieldLang
