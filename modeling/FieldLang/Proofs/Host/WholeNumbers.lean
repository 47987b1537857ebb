/-
Whole numbers in compiled programs.

* `Expr.whole?` : the whole number that the host holds for an arithmetic expression, if it holds one;
* `native_held` : what the host has for an expression is that number, or else a double or complex;
* `Harmless` : what the host needs to agree with evaluation at an expression;
* `wholeNumbers_harmless_iff` : compiled programs agree with evaluation at all parts of an expression where all of
  them are harmless, and nowhere else.

Design notes: the host computes with whole numbers exactly, and rounds them when a double meets them.
The sign of a zero is lost in a whole number, so doubles are compared up to it; as the host divides by
no zero, only powers could tell.
-/
import FieldLang.Proofs.Host.Arithmetic
import FieldLang.Proofs.Syntax.Nodes

namespace FieldLang

open HostWriter

/-! ### Whole numbers -/

/-- The whole number that an operator yields for two of them, unless it yields a double. -/
def BinOp.wholeResult? : BinOp → Int → Int → Option Int
  | .add, a, b => some (a + b)
  | .sub, a, b => some (a - b)
  | .mul, a, b => some (a * b)
  | .pow, a, b => if 0 ≤ b then some (Int.pow a b.toNat) else none
  | _, _, _ => none

/-- The whole number that a literal is written as, if it is. -/
def wholeNumber? (value : Float) : Option Int :=
  match Decimal.parts value with
  | .finite negative mag =>
    if Writing.isShortWhole mag then some (if negative then -mag.whole else mag.whole) else none
  | _ => none

/-- The whole number that the host holds for an arithmetic expression, if it holds one. -/
def Expr.whole? (angles : Angles) : Expr → Option Int
  | .number value => wholeNumber? value
  | .variable name => wholeNumber? (angles.named name)
  | .negate operand => (operand.whole? angles).map fun n => -n
  | .binary op lhs rhs =>
    match lhs.whole? angles, rhs.whole? angles with
    | some a, some b => op.wholeResult? a b
    | _, _ => none
  | _ => none

/-- The values that the host may have for an expression that it holds a whole number for, or none. -/
def Held (whole : Option Int) (v : HostValue) : Prop :=
  match whole with
  | some n => v = .whole .plain n
  | none => v = .complex ∨ ∃ x, v = .real .plain x

namespace HostValue

theorem plainPower_cases {x y : Float} {v : HostValue} (h : plainPower x y = .ok v) :
    Held none v := by
  rw [plainPower] at h
  split at h
  · cases h
  split at h
  · cases h
    exact .inl rfl
  dsimp only at h
  split at h
  · cases h
  · cases h
    exact .inr ⟨_, rfl⟩

theorem plainReals_held {op : BinOp} {x y : Float} {v : HostValue} (h : plainReals op x y = .ok v) :
    Held none v := by
  cases op with
  | add | sub | mul =>
    cases h
    exact .inr ⟨_, rfl⟩
  | div =>
    rw [plainReals] at h
    split at h
    · cases h
    · cases h
      exact .inr ⟨_, rfl⟩
  | pow => exact plainPower_cases h
  | _ => cases h

theorem plainWholes_held {op : BinOp} {a b : Int} {v : HostValue} (h : plainWholes op a b = .ok v) :
    Held (op.wholeResult? a b) v := by
  cases op with
  | add | sub | mul =>
    cases h
    rfl
  | div =>
    rw [plainWholes, plainQuotient] at h
    split at h
    · cases h
    dsimp only at h
    split at h
    · cases h
      exact .inr ⟨_, rfl⟩
    · cases h
  | pow =>
    rw [plainWholes] at h
    rw [BinOp.wholeResult?]
    -- a power of whole numbers is whole unless the exponent is negative
    by_cases hb : 0 ≤ b
    · rw [if_pos hb] at h ⊢
      cases h
      rfl
    · rw [if_neg hb] at h ⊢
      obtain ⟨x, -, h⟩ := bind_eq_ok.mp h
      obtain ⟨y, -, h⟩ := bind_eq_ok.mp h
      exact plainPower_cases h
  | _ => cases h

/-- An operator on two values of which not both are whole numbers is computed on doubles, unless one
of them is complex. -/
theorem arith_reals {op : BinOp} {v w : HostValue} {whole whole' : Option Int} (hv : Held whole v)
    (hw : Held whole' w) (hreal : whole = none ∨ whole' = none) :
    (v.arith op w = .ok .complex ∧ (v = .complex ∨ w = .complex)) ∨
      v.arith op w = (do plainReals op (← v.toFloat) (← w.toFloat)) := by
  -- one of the operands may be whole, and is converted
  cases whole with
  | some n =>
    obtain rfl : v = .whole .plain n := hv
    obtain rfl : whole' = none := hreal.resolve_left nofun
    rcases hw with rfl | ⟨y, rfl⟩
    · exact .inl ⟨rfl, .inr rfl⟩
    · exact .inr rfl
  | none =>
    rcases hv with rfl | ⟨x, rfl⟩
    · refine .inl ⟨?_, .inl rfl⟩
      cases whole' with
      | some n =>
        obtain rfl : w = .whole .plain n := hw
        rfl
      | none => rcases hw with rfl | ⟨y, rfl⟩ <;> rfl
    · cases whole' with
      | some n =>
        obtain rfl : w = .whole .plain n := hw
        exact .inr rfl
      | none =>
        rcases hw with rfl | ⟨y, rfl⟩
        · exact .inl ⟨rfl, .inr rfl⟩
        · exact .inr rfl

theorem neg_held {v w : HostValue} {whole : Option Int} (hv : Held whole v) (h : v.neg = .ok w) :
    Held (whole.map fun n => -n) w := by
  cases whole with
  | some n =>
    obtain rfl : v = .whole .plain n := hv
    cases h
    rfl
  | none =>
    rcases hv with rfl | ⟨x, rfl⟩
    · cases h
      exact .inl rfl
    · cases h
      exact .inr ⟨_, rfl⟩

end HostValue

theorem nativeNumber_held (value : Float) : Held (wholeNumber? value) (nativeNumber value) := by
  rw [wholeNumber?, nativeNumber]
  cases Decimal.parts value with
  | finite negative mag =>
    dsimp only
    split
    · rfl
    · exact .inr ⟨_, rfl⟩
  | _ => exact .inr ⟨_, rfl⟩

/-- What the host has for an arithmetic expression is a whole number where one is expected. -/
theorem native_held {angles : Angles} {e : Expr} (h : e.Arithmetic) {v : HostValue}
    (hv : e.native angles = .ok v) : Held (e.whole? angles) v := by
  induction e using Expr.induction generalizing v with
  | number value =>
    cases hv
    exact nativeNumber_held value
  | name name =>
    cases hv
    exact nativeNumber_held _
  | negate operand ih =>
    obtain ⟨u, hu, hv⟩ := bind_eq_ok.mp hv
    exact HostValue.neg_held (ih h hu) hv
  | binary op lhs rhs ihl ihr =>
    obtain ⟨u, hu, hv⟩ := bind_eq_ok.mp hv
    obtain ⟨u', hu', hv⟩ := bind_eq_ok.mp hv
    have hl := ihl h.2.1 hu
    have hr := ihr h.2.2 hu'
    -- only two whole numbers have a result that is whole
    have hreals : lhs.whole? angles = none ∨ rhs.whole? angles = none → Held none v := by
      intro hreal
      rcases HostValue.arith_reals hl hr hreal with ⟨hcomplex, -⟩ | hreals
      · cases hcomplex.symm.trans hv
        exact .inl rfl
      · obtain ⟨x, -, hv⟩ := bind_eq_ok.mp (hreals.symm.trans hv)
        obtain ⟨y, -, hv⟩ := bind_eq_ok.mp hv
        exact HostValue.plainReals_held hv
    rw [Expr.whole?]
    cases ha : lhs.whole? angles with
    | none => exact hreals (.inl ha)
    | some a =>
      cases hb : rhs.whole? angles with
      | none => exact hreals (.inr hb)
      | some b =>
        rw [ha] at hl
        rw [hb] at hr
        obtain rfl : u = .whole .plain a := hl
        obtain rfl : u' = .whole .plain b := hr
        exact HostValue.plainWholes_held hv
  | _ => exact h.elim

/-! ### Literals and signs -/

/-- A whole number with the other sign has the double with the other sign. -/
theorem wholeToFloat_neg {n : Int} {x : Float} (h : wholeToFloat n = .ok x) :
    ∃ y, wholeToFloat (-n) = .ok y ∧ SameNumber y (-x) := by
  rw [wholeToFloat] at h
  split at h
  · next hfinite =>
    rw [wholeToFloat]
    simp only [Int.natAbs_neg, if_pos hfinite]
    obtain rfl := Except.ok.inj h
    rcases lt_trichotomy n 0 with hn | rfl | hn
    · rw [if_pos hn, if_neg (by omega)]
      exact ⟨_, rfl, .inl (Decimal.neg_neg_of_isFinite hfinite).symm⟩
    · exact ⟨_, rfl, .inr ⟨by decide, by decide⟩⟩
    · rw [if_neg (by omega : ¬n < 0), if_pos (by omega)]
      exact ⟨_, rfl, .refl _⟩
  · cases h

/-- The double for a literal is that of the value that the host has for it. -/
theorem nativeNumber_toFloat (value : Float) :
    ∃ x, (nativeNumber value).toFloat = .ok x ∧ SameNumber x value := by
  rw [nativeNumber]
  cases hp : Decimal.parts value with
  | finite negative mag =>
    dsimp only
    split
    · next hshort =>
      rw [Writing.isShortWhole, Bool.and_eq_true] at hshort
      have hfinite : Decimal.isFinite (Decimal.magnitude value) = true :=
        Decimal.isFinite_of_parts (Decimal.parts_magnitude hp)
      have hwhole : wholeToFloat mag.whole = .ok (Decimal.magnitude value) := by
        rw [wholeToFloat]
        simp only [Int.natAbs_natCast, Decimal.ofRatio_whole hp hshort.1, if_pos hfinite]
        rw [if_neg (by omega)]
      cases negative with
      | false => exact ⟨_, hwhole, .inl (Decimal.magnitude_of_not_negative hp)⟩
      | true =>
        obtain ⟨y, hy, hsame⟩ := wholeToFloat_neg hwhole
        exact ⟨y, hy, Decimal.neg_magnitude hp ▸ hsame⟩
    · exact ⟨value, rfl, .refl value⟩
  | _ => exact ⟨value, rfl, .refl value⟩

/-! ### Agreement -/

section Agreement

variable (angles : Angles)

/-- The number that the function of an expression returns at every point. -/
def Returns (e : Expr) (y : Float) : Prop :=
  ∃ c, compile angles defaultFunctionName (.block [.result e]) = .ok c ∧
    ∀ point, c.call point = .ok y

/-- The function of an expression returns the number that it is evaluated to. -/
def AgreesAt (e : Expr) : Prop := ∃ y, Returns angles e y ∧ SameNumber y (e.double angles)

/-- The host has a power of two doubles: it is not one of zero for a finite negative exponent, not
complex, and not out of range. -/
structure HasPower (x y : Float) : Prop where
  base : ¬((x == 0) = true ∧ y < 0 ∧ Decimal.isFinite y = true)
  real : ¬(x < 0 ∧ Decimal.isFinite x = true ∧ Decimal.isFinite y = true ∧ (y.floor != y) = true)
  range : Decimal.isFinite x = true → Decimal.isFinite y = true → Decimal.isFinite (x.pow y) = true

/-- What the host needs to agree with evaluation at an expression, agreeing at its operands. -/
structure Harmless (e : Expr) : Prop where
  /-- The host keeps track of the brackets of the expression. -/
  brackets : HostWriter.brackets e ≤ Host.nestingLimit
  /-- A whole number is rounded to the double that the expression is evaluated to. -/
  whole : ∀ n, e.whole? angles = some n →
    ∃ x, wholeToFloat n = .ok x ∧ SameNumber x (e.double angles)
  /-- A quotient of whole numbers is rounded to the quotient of their doubles. -/
  quotient : ∀ lhs rhs a b, e = .binary .div lhs rhs → lhs.whole? angles = some a →
    rhs.whole? angles = some b → ∃ q, HostValue.plainQuotient a b = .ok (.real .plain q) ∧
      SameNumber q (lhs.double angles / rhs.double angles)
  /-- Any other quotient is not one by zero. -/
  divisor : ∀ lhs rhs, e = .binary .div lhs rhs →
    lhs.whole? angles = none ∨ rhs.whole? angles = none → ¬(rhs.double angles == 0) = true
  /-- The host has a power that is no whole number, whatever signs of zeros it has lost. -/
  power : ∀ lhs rhs x y, e = .binary .pow lhs rhs → e.whole? angles = none →
    Returns angles lhs x → Returns angles rhs y →
      HasPower x y ∧ SameNumber (x.pow y) ((lhs.double angles).pow (rhs.double angles))

end Agreement

variable {angles : Angles} {e lhs rhs : Expr} {y : Float}

theorem returns_iff (h : e.Arithmetic) : Returns angles e y ↔
    HostWriter.brackets e ≤ Host.nestingLimit ∧
      ∃ v, e.native angles = .ok v ∧ v.toFloat = .ok y := by
  obtain ⟨source, hcompile⟩ := compile_arithmetic angles h
  by_cases hlimit : Host.nestingLimit < HostWriter.brackets e
  · rw [if_pos hlimit] at hcompile
    refine ⟨?_, fun h => absurd hlimit (Nat.not_lt.mpr h.1)⟩
    rintro ⟨c, hc, -⟩
    cases hcompile.symm.trans hc
  rw [if_neg hlimit] at hcompile
  constructor
  · rintro ⟨c, hc, hcall⟩
    obtain rfl := Except.ok.inj (hcompile.symm.trans hc)
    have hcall := hcall ⟨0, 0, 0⟩
    rw [Compiled.call, call_arithmetic angles h] at hcall
    obtain ⟨v, hv, hy⟩ := bind_eq_ok.mp hcall
    refine ⟨Nat.not_lt.mp hlimit, v, hv, ?_⟩
    cases v with
    | tuple items => cases hy
    | _ => exact hy
  · rintro ⟨-, v, hv, hy⟩
    refine ⟨_, hcompile, fun point => ?_⟩
    rw [Compiled.call, call_arithmetic angles h]
    refine bind_eq_ok.mpr ⟨v, hv, ?_⟩
    cases v with
    | tuple items => cases hy
    | _ => exact hy

/-- The host agrees at what it compiles and has a value for that is rounded to the right double. -/
theorem agreesAt_iff (h : e.Arithmetic) : AgreesAt angles e ↔
    HostWriter.brackets e ≤ Host.nestingLimit ∧
      ∃ v y, e.native angles = .ok v ∧ v.toFloat = .ok y ∧ SameNumber y (e.double angles) := by
  simp only [AgreesAt, returns_iff h]
  exact ⟨fun ⟨y, ⟨hlimit, v, hv, hy⟩, hsame⟩ => ⟨hlimit, v, y, hv, hy, hsame⟩,
    fun ⟨hlimit, v, y, hv, hy, hsame⟩ => ⟨y, ⟨hlimit, v, hv, hy⟩, hsame⟩⟩

theorem HostValue.plainPower_eq_real {x y z : Float} :
    plainPower x y = .ok (.real .plain z) ↔ HasPower x y ∧ z = x.pow y := by
  rw [plainPower]
  constructor
  · intro h
    split at h
    · cases h
    · next hbase =>
      split at h
      · cases h
      · next hreal =>
        dsimp only at h
        split at h
        · cases h
        · next hrange =>
          refine ⟨⟨by simpa [and_assoc] using hbase, by simpa [and_assoc] using hreal,
            by simpa using hrange⟩, ?_⟩
          cases h
          rfl
  · rintro ⟨⟨hbase, hreal, hrange⟩, rfl⟩
    rw [if_neg (by simpa [and_assoc] using hbase), if_neg (by simpa [and_assoc] using hreal)]
    dsimp only
    rw [if_neg (by simpa using hrange)]

/-! ### Operands that agree -/

section Operands

theorem not_complex {v : HostValue} (h : v.toFloat = .ok y) : v ≠ .complex := by
  rintro rfl
  cases h

/-- The host holds a whole number that is rounded to the right double if it agrees. -/
theorem AgreesAt.whole (he : e.Arithmetic) (h : AgreesAt angles e) {n : Int}
    (hn : e.whole? angles = some n) :
    ∃ x, wholeToFloat n = .ok x ∧ SameNumber x (e.double angles) := by
  obtain ⟨-, v, y, hv, hy, hsame⟩ := (agreesAt_iff he).mp h
  have hheld := native_held he hv
  rw [hn] at hheld
  obtain rfl : v = .whole .plain n := hheld
  exact ⟨y, hy, hsame⟩

/-- It has a double where it holds no whole number. -/
theorem AgreesAt.real (he : e.Arithmetic) (h : AgreesAt angles e) (hn : e.whole? angles = none) :
    ∃ x, e.native angles = .ok (.real .plain x) ∧ SameNumber x (e.double angles) := by
  obtain ⟨-, v, y, hv, hy, hsame⟩ := (agreesAt_iff he).mp h
  have hheld := native_held he hv
  rw [hn] at hheld
  obtain rfl | ⟨x, rfl⟩ := hheld
  · exact absurd rfl (not_complex hy)
  · obtain rfl := Except.ok.inj hy
    exact ⟨x, hv, hsame⟩

/-- The host agrees at a literal. -/
theorem agreesAt_number (value : Float) : AgreesAt angles (.number value) := by
  have h : (Expr.number value).Arithmetic := trivial
  obtain ⟨x, hx, hsame⟩ := nativeNumber_toFloat value
  exact (agreesAt_iff h).mpr ⟨Nat.zero_le _, _, x, rfl, hx, hsame⟩

theorem agreesAt_variable {name : String} (h : (Expr.variable name).Arithmetic) :
    AgreesAt angles (.variable name) := by
  obtain ⟨x, hx, hsame⟩ := nativeNumber_toFloat (angles.named name)
  exact (agreesAt_iff h).mpr ⟨Nat.zero_le _, _, x, rfl, hx, hsame⟩

/-- It agrees at a sign if it does behind it. -/
theorem agreesAt_negate (h : e.Arithmetic) (hagrees : AgreesAt angles e)
    (hlimit : HostWriter.brackets (.negate e) ≤ Host.nestingLimit) :
    AgreesAt angles (.negate e) := by
  have hnegate : (Expr.negate e).Arithmetic := h
  obtain ⟨-, v, y, hv, hy, hsame⟩ := (agreesAt_iff h).mp hagrees
  rw [agreesAt_iff hnegate, Expr.native, hv]
  refine ⟨hlimit, ?_⟩
  have hheld := native_held h hv
  cases hn : e.whole? angles with
  | some n =>
    rw [hn] at hheld
    obtain rfl : v = .whole .plain n := hheld
    obtain ⟨y', hy', hneg⟩ := wholeToFloat_neg hy
    exact ⟨_, y', rfl, hy', hneg.trans hsame.neg⟩
  | none =>
    rw [hn] at hheld
    obtain rfl | ⟨x, rfl⟩ := hheld
    · exact absurd rfl (not_complex hy)
    · obtain rfl := Except.ok.inj hy
      exact ⟨_, _, rfl, rfl, hsame.neg⟩

variable (op : BinOp) {x x' : Float} (hl : lhs.Arithmetic) (hr : rhs.Arithmetic)
  (hx : Returns angles lhs x) (hx' : Returns angles rhs x')
include hl hr hx hx'

/-- An operator on two whole numbers. -/
theorem native_wholes {a b : Int} (ha : lhs.whole? angles = some a) (hb : rhs.whole? angles = some b) :
    (Expr.binary op lhs rhs).native angles = HostValue.plainWholes op a b ∧
      wholeToFloat a = .ok x ∧ wholeToFloat b = .ok x' := by
  obtain ⟨-, v, hv, hvx⟩ := (returns_iff hl).mp hx
  obtain ⟨-, w, hw, hwx⟩ := (returns_iff hr).mp hx'
  have hheld := native_held hl hv
  have hheld' := native_held hr hw
  rw [ha] at hheld
  rw [hb] at hheld'
  obtain rfl : v = .whole .plain a := hheld
  obtain rfl : w = .whole .plain b := hheld'
  rw [Expr.native, hv, hw]
  exact ⟨rfl, hvx, hwx⟩

/-- An operator on two numbers of which one is a double. -/
theorem native_reals (hreal : lhs.whole? angles = none ∨ rhs.whole? angles = none) :
    (Expr.binary op lhs rhs).native angles = HostValue.plainReals op x x' := by
  obtain ⟨-, v, hv, hvx⟩ := (returns_iff hl).mp hx
  obtain ⟨-, w, hw, hwx⟩ := (returns_iff hr).mp hx'
  rw [Expr.native, hv, hw]
  show v.arith op w = _
  rcases HostValue.arith_reals (native_held hl hv) (native_held hr hw) hreal with ⟨-, hcomplex⟩ | hreals
  · exact (hcomplex.elim (not_complex hvx) (not_complex hwx)).elim
  · rw [hreals, hvx, hwx]
    rfl

/-- A power that is no whole number is one of doubles. -/
theorem native_power (hnone : (Expr.binary .pow lhs rhs).whole? angles = none) :
    (Expr.binary .pow lhs rhs).native angles = HostValue.plainPower x x' := by
  cases ha : lhs.whole? angles with
  | none => exact native_reals _ hl hr hx hx' (.inl ha)
  | some a =>
    cases hb : rhs.whole? angles with
    | none => exact native_reals _ hl hr hx hx' (.inr hb)
    | some b =>
      obtain ⟨hnative, hvx, hwx⟩ := native_wholes .pow hl hr hx hx' ha hb
      rw [Expr.whole?, ha, hb] at hnone
      have hneg : ¬0 ≤ b := by
        intro hb
        simp only [BinOp.wholeResult?, if_pos hb] at hnone
        cases hnone
      rw [hnative, HostValue.plainWholes, if_neg hneg, hvx, hwx]
      rfl

end Operands

/-! ### Operators -/

section Operators

variable {op : BinOp} (h : (Expr.binary op lhs rhs).Arithmetic) (hl : AgreesAt angles lhs)
  (hr : AgreesAt angles rhs)
include h hl hr

/-- Where the host agrees at an operator, it is harmless. -/
theorem AgreesAt.harmless (hagrees : AgreesAt angles (.binary op lhs rhs)) :
    Harmless angles (.binary op lhs rhs) := by
  obtain ⟨x, hx, hxsame⟩ := hl
  obtain ⟨x', hx', hxsame'⟩ := hr
  have ⟨_, hlhs, hrhs⟩ := h
  have hreal := hagrees.real h
  -- whole results, quotients of whole numbers, other quotients, other powers
  refine ⟨((agreesAt_iff h).mp hagrees).1, fun n => hagrees.whole h, fun l r a b heq ha hb => ?_, fun l r heq hone hzero => ?_,
    fun l r z z' heq hnone hz hz' => ?_⟩
  · cases heq
    obtain ⟨hnative, -, -⟩ := native_wholes .div hlhs hrhs hx hx' ha hb
    obtain ⟨q, hq, hsame⟩ := hreal (by rw [Expr.whole?, ha, hb]; rfl)
    exact ⟨q, hnative.symm.trans hq, hsame⟩
  · cases heq
    have hnone : (Expr.binary .div lhs rhs).whole? angles = none := by
      rw [Expr.whole?]
      cases lhs.whole? angles <;> cases rhs.whole? angles <;> rfl
    obtain ⟨q, hq, -⟩ := hreal hnone
    rw [native_reals _ hlhs hrhs hx hx' hone, HostValue.plainReals,
      if_pos (hxsame'.zero_iff.mpr hzero)] at hq
    cases hq
  · cases heq
    obtain ⟨q, hq, hsame⟩ := hreal hnone
    rw [native_power hlhs hrhs hz hz' hnone, HostValue.plainPower_eq_real] at hq
    obtain ⟨hpower, rfl⟩ := hq
    exact ⟨hpower, hsame⟩

/-- Where it is harmless, the host agrees. -/
theorem Harmless.agreesAt (hharmless : Harmless angles (.binary op lhs rhs)) :
    AgreesAt angles (.binary op lhs rhs) := by
  obtain ⟨x, hx, hxsame⟩ := hl
  obtain ⟨x', hx', hxsame'⟩ := hr
  refine (agreesAt_iff h).mpr ⟨hharmless.brackets, ?_⟩
  obtain ⟨hop, hlhs, hrhs⟩ := h
  simp only [List.mem_cons, List.not_mem_nil, or_false] at hop
  -- one operand that is not whole makes the host compute on doubles
  by_cases hreal : lhs.whole? angles = none ∨ rhs.whole? angles = none
  · have hnative := native_reals op hlhs hrhs hx hx' hreal
    rw [hnative]
    rcases hop with rfl | rfl | rfl | rfl | rfl
    · exact ⟨_, _, rfl, rfl, hxsame.add hxsame'⟩
    · exact ⟨_, _, rfl, rfl, hxsame.sub hxsame'⟩
    · exact ⟨_, _, rfl, rfl, hxsame.mul hxsame'⟩
    · have hne : ¬(x' == 0) = true := fun hzero =>
        hharmless.divisor lhs rhs rfl hreal (hxsame'.zero_iff.mp hzero)
      rw [HostValue.plainReals, if_neg hne]
      exact ⟨_, _, rfl, rfl, hxsame.div hxsame' hne⟩
    · have hnone : (Expr.binary .pow lhs rhs).whole? angles = none := by
        rw [Expr.whole?]
        rcases hreal with hnone | hnone <;> rw [hnone]
        cases lhs.whole? angles <;> rfl
      obtain ⟨hpower, hsame⟩ := hharmless.power lhs rhs x x' rfl hnone hx hx'
      exact ⟨_, _, HostValue.plainPower_eq_real.mpr ⟨hpower, rfl⟩, rfl, hsame⟩
  · obtain ⟨a, ha⟩ := Option.ne_none_iff_exists'.mp (not_or.mp hreal).1
    obtain ⟨b, hb⟩ := Option.ne_none_iff_exists'.mp (not_or.mp hreal).2
    obtain ⟨hnative, -, -⟩ := native_wholes op hlhs hrhs hx hx' ha hb
    have hwhole : (Expr.binary op lhs rhs).whole? angles = op.wholeResult? a b := by
      rw [Expr.whole?, ha, hb]
    rcases hop with rfl | rfl | rfl | rfl | rfl
    · obtain ⟨y, hy, hsame⟩ := hharmless.whole _ hwhole
      exact ⟨_, y, hnative, hy, hsame⟩
    · obtain ⟨y, hy, hsame⟩ := hharmless.whole _ hwhole
      exact ⟨_, y, hnative, hy, hsame⟩
    · obtain ⟨y, hy, hsame⟩ := hharmless.whole _ hwhole
      exact ⟨_, y, hnative, hy, hsame⟩
    · obtain ⟨q, hq, hsame⟩ := hharmless.quotient lhs rhs a b rfl ha hb
      exact ⟨_, q, hnative.trans hq, rfl, hsame⟩
    · by_cases hexponent : 0 ≤ b
      · rw [BinOp.wholeResult?, if_pos hexponent] at hwhole
        rw [HostValue.plainWholes, if_pos hexponent] at hnative
        obtain ⟨y, hy, hsame⟩ := hharmless.whole _ hwhole
        exact ⟨_, y, hnative, hy, hsame⟩
      · rw [BinOp.wholeResult?, if_neg hexponent] at hwhole
        obtain ⟨hpower, hsame⟩ := hharmless.power lhs rhs x x' rfl hwhole hx hx'
        exact ⟨_, _, (native_power hlhs hrhs hx hx' hwhole).trans
          (HostValue.plainPower_eq_real.mpr ⟨hpower, rfl⟩), rfl, hsame⟩

end Operators

/-- Where there is no operator, the host agrees and is harmless. -/
theorem AgreesAt.harmless_leaf (he : e.Arithmetic) (hagrees : AgreesAt angles e)
    (hleaf : ∀ op lhs rhs, e ≠ .binary op lhs rhs) : Harmless angles e :=
  ⟨((agreesAt_iff he).mp hagrees).1, fun _ => hagrees.whole he, fun _ _ _ _ heq => absurd heq (hleaf _ _ _),
    fun _ _ heq => absurd heq (hleaf _ _ _), fun _ _ _ _ heq => absurd heq (hleaf _ _ _)⟩

theorem Expr.Arithmetic.of_mem_nodes (h : e.Arithmetic) : ∀ e' ∈ e.nodes, e'.Arithmetic := by
  induction e using Expr.induction with
  | number value => exact List.forall_mem_singleton.mpr h
  | name name => exact List.forall_mem_singleton.mpr h
  | negate operand ih => exact List.forall_mem_cons.mpr ⟨h, ih h⟩
  | binary op lhs rhs ihl ihr =>
    exact List.forall_mem_cons.mpr ⟨h, List.forall_mem_append.mpr ⟨ihl h.2.1, ihr h.2.2⟩⟩
  | _ => exact h.elim

/-- An arithmetic expression is evaluated to a double wherever it stands. The functions that its parts
are compiled to return the doubles that they are evaluated to, up to the sign of a zero, if the host
keeps track of their brackets, every whole number that it holds is rounded to the right double, every
quotient of whole numbers is rounded to the quotient of doubles, nothing else is divided by zero, and
the host has the other powers; and only then. -/
theorem wholeNumbers_harmless_iff (h : e.Arithmetic) :
    (∀ e' ∈ e.nodes, ∀ point,
      evaluate angles (.block [.result e']) point = .ok (e'.double angles)) ∧
    ((∀ e' ∈ e.nodes, AgreesAt angles e') ↔ ∀ e' ∈ e.nodes, Harmless angles e') := by
  refine ⟨fun e' he' => evaluate_arithmetic (h.of_mem_nodes e' he'), ?_⟩
  -- a node agrees if its operands do and it is harmless itself, so the nodes are taken from below
  induction e using Expr.induction with
  | number value =>
    have hagrees : AgreesAt angles (.number value) := agreesAt_number value
    simp only [Expr.nodes, List.forall_mem_singleton]
    exact ⟨fun _ => hagrees.harmless_leaf h (by simp), fun _ => hagrees⟩
  | name name =>
    have hagrees : AgreesAt angles (.variable name) := agreesAt_variable h
    simp only [Expr.nodes, List.forall_mem_singleton]
    exact ⟨fun _ => hagrees.harmless_leaf h (by simp), fun _ => hagrees⟩
  | negate operand ih =>
    have ih := ih h
    simp only [Expr.nodes, List.forall_mem_cons]
    constructor
    · rintro ⟨hself, hoperand⟩
      exact ⟨hself.harmless_leaf h (by simp), ih.mp hoperand⟩
    · rintro ⟨hself, hoperand⟩
      have hagrees := ih.mpr hoperand
      exact ⟨agreesAt_negate h (hagrees operand operand.mem_nodes_self) hself.brackets, hagrees⟩
  | binary op lhs rhs ihl ihr =>
    have ihl := ihl h.2.1
    have ihr := ihr h.2.2
    simp only [Expr.nodes, List.forall_mem_cons, List.forall_mem_append]
    constructor
    · rintro ⟨hself, hl, hr⟩
      exact ⟨AgreesAt.harmless h (hl lhs lhs.mem_nodes_self) (hr rhs rhs.mem_nodes_self) hself, ihl.mp hl,
        ihr.mp hr⟩
    · rintro ⟨hself, hl, hr⟩
      have hl := ihl.mpr hl
      have hr := ihr.mpr hr
      exact ⟨Harmless.agreesAt h (hl lhs lhs.mem_nodes_self) (hr rhs rhs.mem_nodes_self) hself, hl, hr⟩
  | _ => exact h.elim

/-- A sum that no double is, without its first term, `9007199254740992 + 1 - 9007199254740992`. -/
def carried : Expr :=
  .binary .sub (.binary .add (.number 9007199254740992) (.number 1)) (.number 9007199254740992)

/-- A quotient of small whole numbers, `(1 + 2) / 4`. -/
def threeQuarters : Expr := .binary .div (.binary .add (.number 1) (.number 2)) (.number 4)

theorem carried_arithmetic : carried.Arithmetic := ⟨by decide, ⟨by decide, trivial, trivial⟩, trivial⟩

theorem threeQuarters_arithmetic : threeQuarters.Arithmetic :=
  ⟨by decide, ⟨by decide, trivial, trivial⟩, trivial⟩

theorem carried_double : carried.double ⟨0, 0⟩ = 0 := Decimal.code_inj (by decide)

theorem carried_returns : Returns ⟨0, 0⟩ carried 1 := by
  have hone : Decimal.parts 1 = .finite false ⟨4503599627370496, -52⟩ := by decide
  have hlarge : Decimal.parts 9007199254740992 = .finite false ⟨4503599627370496, 1⟩ := by
    decide
  refine (returns_iff carried_arithmetic).mpr ⟨by decide, .whole .plain 1, ?_, ?_⟩
  · simp only [carried, Expr.native, nativeNumber, hone, hlarge]
    rfl
  · exact congrArg Except.ok (Decimal.code_inj (by decide))

/-- A fraction is exact, so it is harmless. -/
theorem threeQuarters_harmless : ∀ e' ∈ threeQuarters.nodes, Harmless ⟨0, 0⟩ e' := by
  have hone : wholeNumber? 1 = some 1 := by decide
  have htwo : wholeNumber? 2 = some 2 := by decide
  have hfour : wholeNumber? 4 = some 4 := by decide
  have hnumber : ∀ value, Harmless ⟨0, 0⟩ (.number value) := fun value =>
    (agreesAt_number value).harmless_leaf trivial nofun
  have hsum : (Expr.binary .add (.number 1) (.number 2)).whole? ⟨0, 0⟩ = some 3 := by
    simp only [Expr.whole?, hone, htwo]
    rfl
  have hadd : Harmless ⟨0, 0⟩ (.binary .add (.number 1) (.number 2)) := by
    refine ⟨by decide, fun n hn => ?_, nofun, nofun, nofun⟩
    obtain rfl : 3 = n := Option.some.inj (hsum.symm.trans hn)
    exact ⟨3, congrArg Except.ok (Decimal.code_inj (by decide)),
      .inl (Decimal.code_inj (by decide))⟩
  -- the quotient is not whole, it is exact, and the divisor is no zero
  have hdiv : Harmless ⟨0, 0⟩ threeQuarters := by
    refine ⟨by decide, fun n hn => ?_, fun l r a b heq ha hb => ?_, fun l r heq hone => ?_, nofun⟩
    · simp only [threeQuarters, Expr.whole?, hone, htwo, hfour] at hn
      cases hn
    · cases heq
      obtain rfl : 3 = a := Option.some.inj (hsum.symm.trans ha)
      obtain rfl : 4 = b := Option.some.inj (hfour.symm.trans hb)
      exact ⟨0.75, congrArg (fun q => Except.ok (HostValue.real .plain q))
        (Decimal.code_inj (by decide)), .inl (Decimal.code_inj (by decide))⟩
    · cases heq
      rw [hsum] at hone
      exact (hone.elim nofun fun h => nomatch hfour.symm.trans h)
  intro e' he'
  simp only [threeQuarters, Expr.nodes, List.mem_cons, List.mem_append, List.not_mem_nil, or_false] at he'
  rcases he' with rfl | (rfl | rfl | rfl) | rfl
  · exact hdiv
  · exact hadd
  all_goals exact hnumber _

/-- Evaluation yields zero where the function returns one; a quotient is returned as it is evaluated. -/
theorem carried_differs :
    (∀ point, evaluate ⟨0, 0⟩ (.block [.result carried]) point = .ok 0) ∧
    Returns ⟨0, 0⟩ carried 1 ∧ (∃ e' ∈ carried.nodes, ¬Harmless ⟨0, 0⟩ e') ∧
    ∀ e' ∈ threeQuarters.nodes, AgreesAt ⟨0, 0⟩ e' := by
  have ⟨hdouble, hiff⟩ := @wholeNumbers_harmless_iff ⟨0, 0⟩ _ carried_arithmetic
  have ⟨_, hiff'⟩ := @wholeNumbers_harmless_iff ⟨0, 0⟩ _ threeQuarters_arithmetic
  refine ⟨fun point => carried_double ▸ hdouble _ carried.mem_nodes_self point, carried_returns, ?_,
    hiff'.mpr threeQuarters_harmless⟩
  by_contra hall
  push Not at hall
  obtain ⟨y, hy, hsame⟩ := hiff.mpr hall _ carried.mem_nodes_self
  -- the function returns one number only
  obtain ⟨c, hc, hcall⟩ := carried_returns
  obtain ⟨c', hc', hcall'⟩ := hy
  obtain rfl := Except.ok.inj (hc.symm.trans hc')
  obtain rfl : 1 = y := Except.ok.inj ((hcall ⟨0, 0, 0⟩).symm.trans (hcall' ⟨0, 0, 0⟩))
  rw [carried_double] at hsame
  exact absurd (hsame.zero_iff.mpr (by decide)) (by decide)

end FieldLang
