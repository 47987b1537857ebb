/-
Doubles up to the sign of a zero.

* `SameNumber` : two doubles are equal, or both of them are zeros;
* `SameNumber.neg`, `SameNumber.add`, `SameNumber.div` : a sign, a sum, a difference, a product and a
  quotient by the same number respect that.

Design notes: an infinity or a NaN is the same as itself only. A quotient by a zero depends on the sign
of the zero, and of powers nothing is known.
-/
import FieldLang.Proofs.Host.Operators

namespace FieldLang

open Float.Model

/-- Two doubles are equal, or both of them are zeros. -/
def SameNumber (x y : Float) : Prop := x = y ∨ (x == 0) = true ∧ (y == 0) = true

/-- A double is a zero if it is unpacked into one. -/
theorem beq_zero_iff {x : Float} : (x == 0) = true ↔ ∃ s, x.toModel.unpack = .zero s := by
  have hzero : (0 : Float).toModel.unpack = .zero .positive := by rfl
  rw [beq_iff_order, order, hzero]
  cases x.toModel.unpack with
  | zero s => exact ⟨fun _ => ⟨s, rfl⟩, fun _ => rfl⟩
  | notANumber => exact ⟨nofun, nofun⟩
  | infinity s => cases s <;> exact ⟨nofun, nofun⟩
  | finite s => cases s <;> exact ⟨nofun, nofun⟩

namespace SameNumber

variable {x y x' y' z : Float}

theorem refl (x : Float) : SameNumber x x := .inl rfl

theorem trans (h : SameNumber x y) (h' : SameNumber y z) : SameNumber x z := by
  rcases h with rfl | ⟨hx, hy⟩
  · exact h'
  · rcases h' with rfl | ⟨-, hz⟩
    · exact .inr ⟨hx, hy⟩
    · exact .inr ⟨hx, hz⟩

/-- A zero is the same as zeros only. -/
theorem zero_iff (h : SameNumber x y) : (x == 0) = true ↔ (y == 0) = true := by
  rcases h with rfl | ⟨hx, hy⟩
  · rfl
  · exact ⟨fun _ => hy, fun _ => hx⟩

/-- A function that yields the same number for both zeros. -/
def ZeroBlind (f : UnpackedFloat → UnpackedFloat) : Prop :=
  ∀ s s', f (.zero s) = f (.zero s') ∨ ∃ r r', f (.zero s) = .zero r ∧ f (.zero s') = .zero r'

theorem unpack_zero (s : UnpackedFloat.Sign) : (pack (.zero s)).unpack = .zero s := by
  cases s <;> rfl

theorem map {f : UnpackedFloat → UnpackedFloat} {g : Float → Float}
    (hg : ∀ x : Float, (g x).toModel = pack (f x.toModel.unpack)) (hf : ZeroBlind f)
    (h : SameNumber x y) : SameNumber (g x) (g y) := by
  rcases h with rfl | ⟨hx, hy⟩
  · exact .refl _
  obtain ⟨s, hx⟩ := beq_zero_iff.mp hx
  obtain ⟨s', hy⟩ := beq_zero_iff.mp hy
  have hgx := hg x
  have hgy := hg y
  rw [hx] at hgx
  rw [hy] at hgy
  rcases hf s s' with heq | ⟨r, r', hr, hr'⟩
  · exact .inl (congrArg Float.ofModel (hgx.trans (heq ▸ hgy.symm)))
  · refine .inr ⟨beq_zero_iff.mpr ⟨r, ?_⟩, beq_zero_iff.mpr ⟨r', ?_⟩⟩
    · rw [hgx, hr, unpack_zero]
    · rw [hgy, hr', unpack_zero]

theorem neg (h : SameNumber x y) : SameNumber (-x) (-y) :=
  h.map (fun _ => rfl) fun s s' => .inr ⟨-s, -s', rfl, rfl⟩

/-- A function of two numbers that is blind to the signs of zeros in each of them. -/
theorem map₂ {f : UnpackedFloat → UnpackedFloat → UnpackedFloat} {g : Float → Float → Float}
    (hg : ∀ x y : Float, (g x y).toModel = pack (f x.toModel.unpack y.toModel.unpack))
    (hl : ∀ u, ZeroBlind fun v => f v u) (hr : ∀ u, ZeroBlind (f u)) (hx : SameNumber x x')
    (hy : SameNumber y y') : SameNumber (g x y) (g x' y') := by
  have hleft : SameNumber (g x y) (g x' y) := hx.map (fun x => hg x y) (hl _)
  exact hleft.trans (hy.map (fun y => hg x' y) (hr _))

theorem add (hx : SameNumber x x') (hy : SameNumber y y') : SameNumber (x + y) (x' + y') := by
  refine map₂ (f := UnpackedFloat.add Format.binary64) (fun _ _ => rfl) (fun u s s' => ?_)
    (fun u s s' => ?_) hx hy <;>
  cases u with
  | zero t => cases s <;> cases s' <;> cases t <;> exact .inr ⟨_, _, rfl, rfl⟩
  | _ => exact .inl rfl

theorem sub (hx : SameNumber x x') (hy : SameNumber y y') : SameNumber (x - y) (x' - y') := by
  refine map₂ (f := UnpackedFloat.sub Format.binary64) (fun _ _ => rfl) (fun u s s' => ?_)
    (fun u s s' => ?_) hx hy <;>
  cases u with
  | zero t => cases s <;> cases s' <;> cases t <;> exact .inr ⟨_, _, rfl, rfl⟩
  | _ => exact .inl rfl

theorem mul (hx : SameNumber x x') (hy : SameNumber y y') : SameNumber (x * y) (x' * y') := by
  refine map₂ (f := UnpackedFloat.mul Format.binary64) (fun _ _ => rfl) (fun u s s' => ?_)
    (fun u s s' => ?_) hx hy <;>
  cases u with
  | zero t => exact .inr ⟨_, _, rfl, rfl⟩
  | finite t => exact .inr ⟨_, _, rfl, rfl⟩
  | _ => exact .inl rfl

/-- A divisor that is no zero is the same as itself only. -/
theorem div (hx : SameNumber x x') (hy : SameNumber y y') (hne : ¬(y == 0) = true) :
    SameNumber (x / y) (x' / y') := by
  obtain rfl : y = y' := hy.resolve_right fun h => hne h.1
  refine hx.map (f := fun u => u.div Format.binary64 y.toModel.unpack) (fun _ => rfl) fun s s' => ?_
  cases y.toModel.unpack with
  | infinity t => exact .inr ⟨_, _, rfl, rfl⟩
  | finite t => exact .inr ⟨_, _, rfl, rfl⟩
  | _ => exact .inl rfl

end SameNumber

end FieldLang
