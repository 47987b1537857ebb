/-
Doubles as exact numbers.

A finite double is a sign and a magnitude `coeff * 2 ^ exp`; everything that writes numbers
or computes remainders works on magnitudes in exact arithmetic on naturals.

* `Magnitude` : a coefficient and a power of two;
* `Parts`, `parts` : what a double is made of;
* `ofRatio`, `ofMagnitude` : the double nearest to an exact quotient;
* `isqrt` : the integer square root.
-/

namespace FieldLang.Decimal

/-- The exact non-negative number `coeff * 2 ^ exp`. -/
structure Magnitude where
  coeff : Nat
  exp : Int
deriving Repr, DecidableEq

/-- What a double is made of. -/
inductive Parts where
  | nan
  | infinite (negative : Bool)
  | finite (negative : Bool) (mag : Magnitude)
deriving Repr, DecidableEq

/-- The number that the bits of positive infinity are. -/
def infinityCode : Nat := 0x7FF0000000000000

/-- Positive infinity. -/
def infinity : Float := 1.0 / 0.0

/-- Whether the sign bit is set. -/
def signBit (x : Float) : Bool := x.toBits >>> 63 == 1

/-- The sign, coefficient and exponent that the bits of a double stand for. -/
def parts (x : Float) : Parts :=
  let bits := x.toBits
  let negative := signBit x
  let biased := ((bits >>> 52) &&& 0x7FF).toNat
  let fraction := (bits &&& 0xFFFFFFFFFFFFF).toNat
  if biased = 0x7FF then
    if fraction = 0 then .infinite negative else .nan
  else if biased = 0 then .finite negative ⟨fraction, -1074⟩
  else .finite negative ⟨Nat.pow 2 52 + fraction, (biased : Int) - 1075⟩

/-- Neither an infinity nor a NaN. -/
def isFinite (x : Float) : Bool :=
  match parts x with
  | .finite _ _ => true
  | _ => false

namespace Magnitude

/-- A power of two lies nearer to the double below it than to the one above, unless it is
the least normal double. -/
def narrowBelow (x : Magnitude) : Bool := x.coeff == Nat.pow 2 52 && x.exp > -1074

/-- Numerator and denominator of one unit of the coefficient, `2 ^ exp`, counted in units
of `10 ^ e`. -/
def unit (x : Magnitude) (e : Int) : Nat × Nat :=
  (Nat.pow 2 x.exp.toNat * Nat.pow 10 (-e).toNat,
    Nat.pow 2 (-x.exp).toNat * Nat.pow 10 e.toNat)

/-- The number of digits before the decimal point: the least `k` with `x < 10 ^ k`, for a
positive magnitude of a double. The binary logarithm times `log 2 / log 10` is at most two
below it. -/
def places (x : Magnitude) : Int :=
  let k : Int := (30103 * ((x.coeff.log2 : Int) + x.exp)).fdiv 100000 + 1
  let (num, den) := x.unit k
  if x.coeff * num < den then k else k + 1

/-- The part of the magnitude before the binary point, exactly. -/
def whole (x : Magnitude) : Nat :=
  x.coeff * Nat.pow 2 x.exp.toNat / Nat.pow 2 (-x.exp).toNat

/-- No part of the magnitude lies behind the binary point. -/
def isWhole (x : Magnitude) : Bool :=
  x.coeff * Nat.pow 2 x.exp.toNat % Nat.pow 2 (-x.exp).toNat == 0

/-- The coefficient that the magnitude has over a binary exponent no greater than its own. -/
def scaledTo (x : Magnitude) (e : Int) : Nat := x.coeff * Nat.pow 2 (x.exp - e).toNat

end Magnitude

/-- The greatest binary exponent over which two magnitudes both have whole coefficients. -/
def commonExp (x y : Magnitude) : Int := if x.exp ≤ y.exp then x.exp else y.exp

/-- The natural nearest to `num / den`, an exact half going to the even neighbour. -/
def roundDiv (num den : Nat) : Nat :=
  let q := num / den
  let r := num % den
  if 2 * r < den then q
  else if den < 2 * r then q + 1
  else if q % 2 = 0 then q else q + 1

/-! ### Doubles from quotients -/

open Float.Model in
theorem valid_of_lt {n : Nat} (h : n < infinityCode) :
    Format.binary64.Valid (UInt64.ofNat n).toBitVec := by
  rw [infinityCode] at h
  refine ⟨fun hexp _ => ?_⟩
  have hn : (UInt64.ofNat n).toBitVec.toNat = n := by
    show n % 2 ^ 64 = n
    omega
  have hlt : (@UnpackedFloat.unpackExponent Format.binary64
      (UInt64.ofNat n).toBitVec).toNat < 2047 := by
    simp only [UnpackedFloat.unpackExponent, BitVec.extractLsb, BitVec.toNat_cast,
      BitVec.extractLsb'_toNat, hn]
    simp
    omega
  rw [hexp] at hlt
  exact absurd hlt (by decide)

/-- The finite double without a sign that has a given number for its bits. -/
def ofCode (n : Nat) (h : n < infinityCode) : Float := .ofModel ⟨UInt64.ofNat n, valid_of_lt h⟩

/-- Numerator and denominator of `num / den * 2 ^ exp` counted in units of `2 ^ e`. -/
def scaled (num den : Nat) (exp e : Int) : Nat × Nat :=
  (num * Nat.pow 2 (exp - e).toNat, den * Nat.pow 2 (e - exp).toNat)

/-- The binary exponent over which `num / den * 2 ^ exp` has 53 bits before the point, or the
least one that there is. -/
def roundingExp (num den : Nat) (exp : Int) : Int :=
  -- one bit too many is left if the leading bits of the denominator are the greater ones
  let e : Int := (num.log2 : Int) - (den.log2 : Int) + exp - 53
  if e < -1074 then -1074
  else
    let (n, d) := scaled num den exp e
    if n < Nat.pow 2 53 * d then e else e + 1

/-- The double nearest to `num / den * 2 ^ exp`, ties going to the even coefficient. The codes of
doubles ascend with them, so a coefficient that is rounded up to one more bit carries over into
the exponent. -/
def ofRatio (num den : Nat) (exp : Int) : Float :=
  if num = 0 ∨ den = 0 then 0
  else
    let e := roundingExp num den exp
    let (n, d) := scaled num den exp e
    let code := Nat.pow 2 52 * (e + 1074).toNat + roundDiv n d
    if h : code < infinityCode then ofCode code h else infinity

/-- The double nearest to an exact magnitude. -/
def ofMagnitude (x : Magnitude) : Float := ofRatio x.coeff 1 x.exp

/-- The integer part of the square root, one bit at a time. -/
def isqrt (n : Nat) : Nat :=
  if h : n = 0 then 0
  else
    let r := 2 * isqrt (n / 4)
    if (r + 1) * (r + 1) ≤ n then r + 1 else r
termination_by n
decreasing_by omega

end FieldLang.Decimal
