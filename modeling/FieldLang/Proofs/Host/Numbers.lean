/-
What the literals of generated code are worth.

* `ofMagnitude_eq`, `ofRatio_whole` : a magnitude and a whole number are the doubles that they are
  written for;
* `evalHost_numberTree` : read as a double, the literal for a number is the number.
-/
import FieldLang.Proofs.Decimal.Shortest
import FieldLang.Proofs.Decimal.Reading
import FieldLang.Proofs.Host.Frames

namespace FieldLang

namespace Decimal

variable {value : Float} {negative : Bool} {mag : Magnitude}

/-- The double nearest to the magnitude of a double. -/
theorem ofMagnitude_eq (h : parts value = .finite negative mag) :
    ofMagnitude mag = magnitude value := by
  obtain ⟨hlt, hcode⟩ := magnitude_eq h
  obtain ⟨-, -, hd⟩ := parts_finite h
  have hv : RoundsTo (quotient mag.coeff 1 mag.exp) mag.coeff mag.exp := by
    have hq : quotient mag.coeff 1 mag.exp = mag.value := by simp [quotient, Magnitude.value]
    rw [hq]
    exact mag.roundsTo_value
  rw [hcode, ofMagnitude, ofRatio_of_roundsTo one_ne_zero hv hd hlt]

/-- The double nearest to a whole magnitude. -/
theorem ofRatio_whole (h : parts value = .finite negative mag) (hwhole : mag.isWhole = true) :
    ofRatio mag.whole 1 0 = magnitude value := by
  obtain ⟨hlt, hcode⟩ := magnitude_eq h
  obtain ⟨-, -, hd⟩ := parts_finite h
  have hv : RoundsTo (quotient mag.whole 1 0) mag.coeff mag.exp := by
    have hq : quotient mag.whole 1 0 = mag.value := by simp [quotient, whole_value hwhole]
    rw [hq]
    exact mag.roundsTo_value
  rw [hcode, ofRatio_of_roundsTo one_ne_zero hv hd hlt]

theorem isFinite_of_parts (h : parts value = .finite negative mag) : isFinite value = true := by
  rw [isFinite, h]

theorem magnitude_of_not_negative (h : parts value = .finite false mag) : magnitude value = value := by
  rw [magnitude, ← (parts_finite h).1]
  rfl

theorem neg_magnitude (h : parts value = .finite true mag) : -magnitude value = value := by
  rw [magnitude, ← (parts_finite h).1]
  exact neg_neg_of_isFinite (isFinite_of_parts h)

/-- An infinity is told by its sign. -/
theorem infinity_of_parts (h : parts value = .infinite negative) :
    value = if negative then -infinity else infinity := by
  have hcode := code_of_infinite h
  refine code_inj (hcode.trans ?_)
  cases negative with
  | false => exact code_infinity.symm
  | true =>
    have hneg : code (-infinity) = 2 ^ 63 + infinityCode := by decide
    exact hneg.symm

end Decimal

namespace HostWriter

open Decimal

variable {w : HostWriter} {env : Env Float Bool} {frame : HostFrame}

theorem evalHost_magnitudeTree {value : Float} {negative : Bool} {mag : Magnitude}
    (h : parts value = .finite negative mag) (frame : HostFrame) :
    evalHost .asDoubles frame (magnitudeTree mag) =
      .ok (.real .array (magnitude value), frame) := by
  rw [magnitudeTree]
  by_cases hshort : Writing.isShortWhole mag = true
  · have hwhole : mag.isWhole = true := by
      simp only [Writing.isShortWhole, Bool.and_eq_true] at hshort
      exact hshort.1
    rw [if_pos hshort, evalHost, Literals.whole, ofRatio_whole h hwhole]
  · rw [if_neg hshort, evalHost, Literals.real, ofMagnitude_eq h]

/-- Read as a double, the literal for a number is the number. -/
theorem evalHost_numberTree (h : Holds w env frame) (value : Float) :
    evalHost .asDoubles frame (numberTree value) = .ok (.real .array value, frame) := by
  have hinf : evalHost .asDoubles frame (.name "inf") =
      .ok (.real .array Decimal.infinity, frame) := by
    rw [evalHost, h.get_inf]
    rfl
  rw [numberTree]
  -- what is not finite has a name, the rest is a literal
  cases hp : parts value with
  | nan =>
    have hnan : Double.nan = value := parts_eq_nan (by decide) hp
    show evalHost .asDoubles frame (.name "nan") = _
    rw [evalHost, h.get_nan, ← hnan]
    rfl
  | infinite negative =>
    have hvalue := infinity_of_parts hp
    cases negative with
    | false =>
      show evalHost .asDoubles frame (.name "inf") = _
      rw [hinf, hvalue]
      rfl
    | true =>
      show evalHost .asDoubles frame (.negate (.name "inf")) = _
      rw [evalHost, hinf, hvalue]
      rfl
  | finite negative mag =>
    have htree := evalHost_magnitudeTree hp frame
    cases negative with
    | false =>
      show evalHost .asDoubles frame (magnitudeTree mag) = _
      rw [htree, magnitude_of_not_negative hp]
    | true =>
      show evalHost .asDoubles frame (.negate (magnitudeTree mag)) = _
      rw [evalHost, htree, ← congrArg (HostValue.real .array) (neg_magnitude hp)]
      rfl

end HostWriter

end FieldLang
