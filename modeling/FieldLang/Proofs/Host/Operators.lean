/-
Operators of the host language on values of programs.

* `Value.toHost` : a value of a program as a value of the host language;
* `orderReals_eq` : how two doubles compare;
* `applyBinary_toHost` : an operator that has a value in programs has the same one in the host.
-/
import FieldLang.Host.Run
import FieldLang.Writing.Host

namespace FieldLang

/-- A value at a point as a value of the host language. -/
def Value.toHost : Value Float Bool → HostValue
  | .scalar x => .real .array x
  | .boolean b => .truth .array b
  | .vec2 x y => .tuple [.real .array x, .real .array y]
  | .vec3 x y z => .tuple [.real .array x, .real .array y, .real .array z]

/-! ### Comparisons of doubles -/

open Float.Model in
/-- Comparing the other way around. -/
theorem compare_unpacked_swap (a b : UnpackedFloat) :
    b.compare a = (a.compare b).map Ordering.swap := by
  have hexp (e e' : Int) : compare e' e = (compare e e').swap := Std.OrientedOrd.eq_swap
  have hmant (m m' : Nat) : compare m' m = (compare m m').swap := Std.OrientedOrd.eq_swap
  cases a with
  | infinity s =>
    cases b with
    | notANumber => cases s <;> rfl
    | infinity s' | zero s' | finite s' => cases s <;> cases s' <;> rfl
  | notANumber => cases b <;> rfl
  | zero s =>
    cases b with
    | notANumber => rfl
    | infinity s' | zero s' | finite s' => cases s' <;> rfl
  | finite s m e =>
    cases b with
    | notANumber => cases s <;> rfl
    | infinity s' | zero s' => cases s <;> cases s' <;> rfl
    | finite s' m' e' =>
      -- with one sign the exponents are compared first, the digits next
      have hthen : (compare e' e).then (compare m' m) =
          ((compare e e').then (compare m m')).swap := by
        rw [hexp e e', hmant m m', Ordering.swap_then]
      cases s with
      | positive =>
        cases s' with
        | positive => exact congrArg some hthen
        | negative => rfl
      | negative =>
        cases s' with
        | positive => rfl
        | negative => exact congrArg (fun order => some order.swap) hthen

/-- How two doubles compare, NaN with nothing. -/
def order (x y : Float) : Option Ordering := x.toModel.unpack.compare y.toModel.unpack

theorem lt_iff_order {x y : Float} : x < y ↔ order x y = some .lt := by
  show decide (x.toModel < y.toModel) = true ↔ _
  rw [decide_eq_true_iff]
  show (order x y == some .lt) = true ↔ _
  rw [beq_iff_eq]

theorem le_iff_order {x y : Float} : x ≤ y ↔ order x y = some .lt ∨ order x y = some .eq := by
  show decide (x.toModel ≤ y.toModel) = true ↔ _
  rw [decide_eq_true_iff]
  show ((order x y).any (·.isLE)) = true ↔ _
  cases order x y with
  | none => simp
  | some o => cases o <;> simp [Ordering.isLE]

theorem beq_iff_order {x y : Float} : (x == y) = true ↔ order x y = some .eq := by
  show (order x y == some .eq) = true ↔ _
  rw [beq_iff_eq]

theorem order_swap (x y : Float) : order y x = (order x y).map Ordering.swap :=
  compare_unpacked_swap _ _

namespace HostValue

/-- The three comparisons of doubles tell the order. -/
theorem orderReals_eq (x y : Float) : orderReals x y = order x y := by
  have hswap := order_swap x y
  rw [orderReals]
  simp only [lt_iff_order, beq_iff_order, hswap]
  cases order x y with
  | none => rfl
  | some o => cases o <;> rfl

/-- A comparison of doubles holds if the relation does that the operator stands for. -/
theorem holds_order {op : BinOp} {r : Float → Float → Bool} (h : op.relation? = some r)
    (x y : Float) : holds op (order x y) = r x y := by
  have hswap := order_swap x y
  have hlt : decide (x < y) = (order x y == some .lt) := by
    rw [Bool.eq_iff_iff, decide_eq_true_iff, lt_iff_order, beq_iff_eq]
  have hgt : decide (y < x) = (order x y == some .gt) := by
    rw [Bool.eq_iff_iff, decide_eq_true_iff, lt_iff_order, beq_iff_eq, hswap]
    cases order x y with
    | none => simp
    | some o => cases o <;> simp
  have heq : (x == y) = (order x y == some .eq) := by
    rw [Bool.eq_iff_iff, beq_iff_order, beq_iff_eq]
  have hle : decide (x ≤ y) = (order x y == some .lt || order x y == some .eq) := by
    rw [Bool.eq_iff_iff, decide_eq_true_iff, le_iff_order, Bool.or_eq_true, beq_iff_eq, beq_iff_eq]
  have hge : decide (y ≤ x) = (order x y == some .gt || order x y == some .eq) := by
    rw [Bool.eq_iff_iff, decide_eq_true_iff, le_iff_order, Bool.or_eq_true, beq_iff_eq, beq_iff_eq,
      hswap]
    cases order x y with
    | none => simp
    | some o => cases o <;> simp
  -- each comparison is a set of orders
  cases op <;> cases h <;> simp only [hlt, hgt, heq, hle, hge, bne] <;>
    rcases order x y with _ | _ | _ | _ <;> rfl

/-! ### Operators -/

theorem arith_real {op : BinOp} {f : Float → Float → Float} (h : op.arithmetic? = some f)
    (x y : Float) : arith op (real .array x) (real .array y) = .ok (real .array (f x y)) := by
  have h' : arith op (real .array x) (real .array y) = arrayReals op x y := rfl
  rw [h', arrayReals, h]

theorem compare_real {op : BinOp} {r : Float → Float → Bool} (h : op.relation? = some r)
    (x y : Float) : compare op (real .array x) (real .array y) = .ok (truth .array (r x y)) := by
  rw [← holds_order h, ← orderReals_eq]
  cases op <;> rfl

theorem compare_truth {op : BinOp} {r : Bool → Bool → Bool} (h : op.truthRelation? = some r)
    (b b' : Bool) : compare op (truth .array b) (truth .array b') = .ok (truth .array (r b b')) := by
  cases op <;> cases h <;> cases b <;> cases b' <;> rfl

/-- Comparisons are those operators that the host writes at the rank of comparisons. -/
theorem isSome_relation? (op : BinOp) :
    op.relation?.isSome = true ↔ (HostWriter.operator op).2 = HostWriter.comparisonRank := by
  cases op <;> decide

/-- An operator of the host that evaluates both operands. -/
def operate (op : BinOp) (v w : HostValue) : Except HostFault HostValue :=
  if (HostWriter.operator op).2 = HostWriter.comparisonRank then v.compare op w else v.arith op w

/-- An operator that evaluates both operands agrees with that of the host. -/
theorem applyBinary_toHost {op : BinOp} {v w u : Value Float Bool} (h : applyBinary op v w = .ok u) :
    operate op v.toHost w.toHost = .ok u.toHost := by
  rw [operate]
  rw [applyBinary.eq_def] at h
  -- two numbers, two truth values, or operands that no operator takes
  split at h
  · next x y =>
    split at h
    · next _ _ f hf =>
      cases h
      have hrank : ¬(HostWriter.operator op).2 = HostWriter.comparisonRank := by
        cases op <;> first | decide | cases hf
      rw [if_neg hrank]
      exact arith_real hf x y
    · next r hf hr =>
      cases h
      rw [if_pos ((isSome_relation? op).mp (by rw [hr]; rfl))]
      exact compare_real hr x y
    · cases h
  · next b b' =>
    split at h
    · next r hr =>
      cases h
      have hrank : (HostWriter.operator op).2 = HostWriter.comparisonRank := by
        cases op <;> first | decide | cases hr
      rw [if_pos hrank]
      exact compare_truth hr b b'
    · cases h
  · cases h

end HostValue

end FieldLang
