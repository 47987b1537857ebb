/-
Values of the host language, and why it may fail to compute one.

* `Origin` : whether a number is a plain one or belongs to the array library;
* `HostValue` : numbers, truth values, tuples and the few other things a function can meet;
* `HostFault` : the failures, with their wording;
* `HostValue.toFloat` : a value as a double.

Design notes: plain whole numbers are unbounded, and plain division and powers may fail.
Numbers of the array library are words of 64 bits or doubles; they wrap around or become
infinite instead. An operator on both yields a number of the array library. Of a complex
number only its kind is kept: no operation leads back to real numbers.
-/
import FieldLang.Field.Function
import FieldLang.Syntax.Tree
import FieldLang.Text.Quoted

namespace FieldLang

/-- Where a number comes from. -/
inductive Origin where
  | plain
  | array
deriving Repr, DecidableEq

/-- The origin of what is computed from two numbers. -/
def Origin.join : Origin → Origin → Origin
  | .plain, o => o
  | .array, _ => .array

/-- A value of the host language. -/
inductive HostValue where
  | truth (origin : Origin) (b : Bool)
  | whole (origin : Origin) (n : Int)
  | real (origin : Origin) (x : Float)
  | complex
  | tuple (items : List HostValue)
  | list (items : List HostValue)
  /-- The function that is running. -/
  | function
  | nothing
deriving Repr, Inhabited

/-- The name of the type of a value. -/
def HostValue.typeName : HostValue → String
  | truth .plain _ => "bool"
  | truth .array _ => "numpy.bool"
  | whole .plain _ => "int"
  | whole .array _ => "numpy.int64"
  | real .plain _ => "float"
  | real .array _ => "numpy.float64"
  | complex => "complex"
  | tuple _ => "tuple"
  | list _ => "list"
  | function => "function"
  | nothing => "NoneType"

/-- Why a function has no value. -/
inductive HostFault where
  /-- A name of the function is read before anything is bound to it. -/
  | unassigned (name : String)
  | undefined (name : String)
  | vectorResult (size : Nat)
  | notNumber (typeName : String)
  | severalNumbers
  | wholeQuotientByZero
  | quotientByZero
  | zeroPower
  | wholeTooLarge
  | quotientTooLarge
  | powerTooLarge
  | wordTooLarge (n : Int)
  | negativeExponent
  | operands (op : BinOp) (lhs rhs : String)
  | concatenation (rhs : String)
  | repetition (times : String)
  | ordering (op : BinOp) (lhs rhs : String)
  | sign (typeName : String)
  | truthDifference
  | truthSign
  | notIterable (typeName : String)
  | tooManyItems (expected : Nat)
  | tooFewItems (expected count : Nat)
  | notCallable (typeName : String)
  | call (error : CallError)
deriving Repr, DecidableEq

/-- The wording of a fault. -/
def HostFault.message : HostFault → String
  | unassigned name =>
    "Generated code read an unbound variable: cannot access local variable " ++ Text.quote name
      ++ " where it is not associated with a value"
  | undefined name =>
    "Generated code read an unbound variable: name " ++ Text.quote name ++ " is not defined"
  | vectorResult size => "Program result must be a scalar, got a " ++ toString size ++ "-vector"
  | notNumber type => "float() argument must be a string or a real number, not " ++ Text.quote type
  | severalNumbers => "only length-1 arrays can be converted to Python scalars"
  | wholeQuotientByZero => "division by zero"
  | quotientByZero => "float division by zero"
  | zeroPower => "0.0 cannot be raised to a negative power"
  | wholeTooLarge => "int too large to convert to float"
  | quotientTooLarge => "integer division result too large for a float"
  | powerTooLarge => "(34, 'Numerical result out of range')"
  | wordTooLarge n => "Python integer " ++ toString n ++ " out of bounds for int64"
  | negativeExponent => "Integers to negative integer powers are not allowed."
  | operands op lhs rhs =>
    let spelling := if op = .pow then "** or pow()" else op.spelling
    "unsupported operand type(s) for " ++ spelling ++ ": " ++ Text.quote lhs ++ " and "
      ++ Text.quote rhs
  | concatenation rhs => "can only concatenate tuple (not \"" ++ rhs ++ "\") to tuple"
  | repetition times => "can't multiply sequence by non-int of type " ++ Text.quote times
  | ordering op lhs rhs =>
    "'" ++ op.spelling ++ "' not supported between instances of " ++ Text.quote lhs ++ " and "
      ++ Text.quote rhs
  | sign type => "bad operand type for unary -: " ++ Text.quote type
  | truthDifference =>
    "numpy boolean subtract, the `-` operator, is not supported, use the bitwise_xor, the `^` "
      ++ "operator, or the logical_xor function instead."
  | truthSign =>
    "The numpy boolean negative, the `-` operator, is not supported, use the `~` operator or the "
      ++ "logical_not function instead."
  | notIterable type => "cannot unpack non-iterable " ++ type ++ " object"
  | tooManyItems expected => "too many values to unpack (expected " ++ toString expected ++ ")"
  | tooFewItems expected count =>
    "not enough values to unpack (expected " ++ toString expected ++ ", got " ++ toString count
      ++ ")"
  | notCallable type => Text.quote type ++ " object is not callable"
  | call e => e.message

/-- The double nearest to a whole number, unless it is out of range. -/
def wholeToFloat (n : Int) : Except HostFault Float :=
  let x := Decimal.ofRatio n.natAbs 1 0
  if Decimal.isFinite x then .ok (if n < 0 then -x else x) else .error .wholeTooLarge

namespace HostValue

/-- One or zero. -/
def ofTruth (b : Bool) : Int := if b then 1 else 0

/-- The whole number that a value counts as. -/
def toInt? : HostValue → Option Int
  | truth _ b => some (ofTruth b)
  | whole _ n => some n
  | _ => none

/-- The origin of a number. -/
def origin : HostValue → Origin
  | truth o _ | whole o _ | real o _ => o
  | _ => .plain

/-- Whether a value is a number, a truth value counting as one. -/
def isNumber : HostValue → Bool
  | truth _ _ | whole _ _ | real _ _ | complex => true
  | _ => false

/-- The double that a value counts as. -/
def toFloat : HostValue → Except HostFault Float
  | truth _ b => .ok (if b then 1 else 0)
  | whole _ n => wholeToFloat n
  | real _ x => .ok x
  | v => .error (.notNumber v.typeName)

/-- Whether a value counts as true. -/
def isTrue : HostValue → Bool
  | truth _ b => b
  | whole _ n => n != 0
  | real _ x => x != 0
  | complex => true
  | tuple items | list items => !items.isEmpty
  | function => true
  | nothing => false

end HostValue

end FieldLang
