/-
Decimal numbers read as doubles.

* `ofScientific_eq` : a decimal number is read as the double that it rounds to;
* `isUnsigned_readLiteral` : a literal is read as a double without a sign.
-/
import FieldLang.Proofs.Decimal.Bits
import FieldLang.Decimal.Reader

namespace FieldLang.Decimal

/-- A number that is less than half of the least double rounds to zero only. -/
theorem RoundsTo.coeff_eq_zero {v : ℚ} {c : ℕ} {e : ℤ} (hv : RoundsTo v c e) (hd : IsDouble c e)
    (hsmall : v < 2 ^ (-1075 : ℤ)) : c = 0 ∧ e = -1074 := by
  have hlt : v / 2 ^ e < 1 / 2 := by
    obtain ⟨k, hk⟩ : ∃ k : ℕ, e = -1074 + k := ⟨(e + 1074).toNat, by have := hd.ge_min; omega⟩
    have h1 : (1 : ℚ) ≤ 2 ^ k := one_le_pow₀ (by norm_num)
    have hhalf : (2 : ℚ) ^ (-1075 : ℤ) = 2 ^ (-1074 : ℤ) / 2 := by
      rw [show (-1074 : ℤ) = -1075 + 1 by norm_num, zpow_add₀ (by norm_num), zpow_one]
      field_simp
    have hpos : (0 : ℚ) < 2 ^ (-1074 : ℤ) := by positivity
    rw [hk, zpow_add₀ (by norm_num), zpow_natCast, div_lt_iff₀ (by positivity)]
    rw [hhalf] at hsmall
    nlinarith
  have hc : (c : ℚ) < 1 := by linarith [hv.nearest.ge]
  have hc0 : c = 0 := by
    have h : c < 1 := by exact_mod_cast hc
    omega
  exact ⟨hc0, hd.normal.resolve_left (by omega)⟩

/-- Rounding a quotient, which may be zero. -/
theorem ofRatio_of_roundsTo {num den : ℕ} {exp : ℤ} {c : ℕ} {e : ℤ} (hden : den ≠ 0)
    (hv : RoundsTo (quotient num den exp) c e) (hd : IsDouble c e)
    (h : 2 ^ 52 * (e + 1074).toNat + c < infinityCode) :
    ofRatio num den exp = ofCode (2 ^ 52 * (e + 1074).toNat + c) h := by
  by_cases hnum : num = 0
  · have hzero : quotient num den exp = 0 := by simp [quotient, hnum]
    obtain ⟨rfl, rfl⟩ := hv.coeff_eq_zero hd (by rw [hzero]; positivity)
    rw [ofRatio, if_pos (.inl hnum)]
    exact code_inj (by simp)
  · exact ofRatio_eq hnum hden hv hd h

/-- No number that rounds to a double is as great as the next power of two after the doubles. -/
theorem RoundsTo.lt_max {v : ℚ} {c : ℕ} {e : ℤ} (hv : RoundsTo v c e) (hd : IsDouble c e) :
    v < 2 ^ 1025 := by
  have hc : (c : ℚ) + 1 ≤ 2 ^ 53 := by exact_mod_cast hd.lt
  have hle : v / 2 ^ e < 2 ^ 53 := by linarith [hv.nearest.le]
  rw [div_lt_iff₀ (by positivity)] at hle
  have he : (2 : ℚ) ^ e ≤ 2 ^ (972 : ℕ) := by
    rw [← zpow_natCast]
    exact zpow_le_zpow_right₀ (by norm_num) (by have := hd.le_max; omega)
  calc v < 2 ^ 53 * 2 ^ e := hle
    _ ≤ 2 ^ 53 * 2 ^ (972 : ℕ) := by gcongr
    _ = 2 ^ 1025 := by rw [← pow_add]

/-- What is read as infinite without a look at its coefficient is greater than every double. -/
theorem two_pow_le_of_huge {coeff : ℕ} (hcoeff : coeff ≠ 0) {exp : ℤ} (h : 400 < exp) :
    (2 : ℚ) ^ 1025 ≤ coeff * 10 ^ exp := by
  have hge : (1 : ℚ) ≤ coeff := by exact_mod_cast Nat.pos_of_ne_zero hcoeff
  calc (2 : ℚ) ^ 1025 ≤ 2 ^ (3 * 400) := pow_le_pow_right₀ (by norm_num) (by norm_num)
    _ = 8 ^ 400 := by rw [pow_mul]; congr 1
    _ ≤ 10 ^ 400 := by gcongr; norm_num
    _ = 10 ^ ((400 : ℕ) : ℤ) := (zpow_natCast _ _).symm
    _ ≤ 10 ^ exp := zpow_le_zpow_right₀ (by norm_num) (by push_cast; omega)
    _ ≤ coeff * 10 ^ exp := le_mul_of_one_le_left (by positivity) hge

/-- What is read as zero for the number of its bits is less than half of the least double, since
`8 ^ k ≤ 10 ^ k`. -/
theorem lt_half_of_tiny {coeff : ℕ} {exp : ℤ} (h : (coeff.log2 : ℤ) + 3 * exp < -1200) :
    (coeff : ℚ) * 10 ^ exp < 2 ^ (-1075 : ℤ) := by
  obtain ⟨k, hk⟩ : ∃ k : ℕ, exp = -k := ⟨(-exp).toNat, by omega⟩
  have hlog : (coeff : ℚ) < 2 ^ (coeff.log2 + 1) := by exact_mod_cast Nat.lt_log2_self
  have h8 : (8 : ℚ) ^ k ≤ 10 ^ k := by gcongr; norm_num
  have hpow : (2 : ℚ) ^ (coeff.log2 + 1) / 8 ^ k ≤ 2 ^ (-1075 : ℤ) := by
    rw [show (8 : ℚ) = 2 ^ 3 by norm_num, ← pow_mul, ← zpow_natCast, ← zpow_natCast,
      ← zpow_sub₀ (by norm_num)]
    exact zpow_le_zpow_right₀ (by norm_num) (by push_cast; omega)
  rw [hk, zpow_neg, zpow_natCast, ← div_eq_mul_inv]
  calc (coeff : ℚ) / 10 ^ k ≤ coeff / 8 ^ k := by gcongr
    _ < 2 ^ (coeff.log2 + 1) / 8 ^ k := by gcongr
    _ ≤ _ := hpow

/-- A decimal number is read as the double that it rounds to. -/
theorem ofScientific_eq {coeff : ℕ} {exp : ℤ} {c : ℕ} {e : ℤ}
    (hv : RoundsTo (coeff * 10 ^ exp) c e) (hd : IsDouble c e)
    (h : 2 ^ 52 * (e + 1074).toNat + c < infinityCode) :
    ofScientific coeff exp = ofCode (2 ^ 52 * (e + 1074).toNat + c) h := by
  have hzero (hsmall : (coeff : ℚ) * 10 ^ exp < 2 ^ (-1075 : ℤ)) :
      (0 : Float) = ofCode (2 ^ 52 * (e + 1074).toNat + c) h := by
    obtain ⟨rfl, rfl⟩ := hv.coeff_eq_zero hd hsmall
    exact code_inj (by simp)
  rw [ofScientific]
  by_cases hcoeff : coeff = 0
  · rw [if_pos hcoeff]
    refine hzero ?_
    rw [hcoeff, Nat.cast_zero, zero_mul]
    positivity
  rw [if_neg hcoeff]
  by_cases hhuge : 400 < exp
  · exact absurd (hv.lt_max hd) (not_lt.mpr (two_pow_le_of_huge hcoeff hhuge))
  rw [if_neg hhuge]
  by_cases htiny : (coeff.log2 : ℤ) + 3 * exp < -1200
  · rw [if_pos htiny]
    exact hzero (lt_half_of_tiny htiny)
  -- what is left is a quotient of whole numbers, with the power of ten above or below
  rw [if_neg htiny]
  by_cases hexp : 0 ≤ exp
  · rw [if_pos hexp]
    have hnum : coeff * Nat.pow 10 exp.toNat ≠ 0 :=
      Nat.mul_ne_zero hcoeff (Nat.pow_pos (by decide)).ne'
    have hq : quotient (coeff * Nat.pow 10 exp.toNat) 1 0 = coeff * 10 ^ exp := by
      obtain ⟨k, rfl⟩ : ∃ k : ℕ, exp = k := ⟨exp.toNat, by omega⟩
      simp [quotient]
    exact ofRatio_eq hnum one_ne_zero (hq ▸ hv) hd h
  · rw [if_neg hexp]
    have hden : Nat.pow 10 (-exp).toNat ≠ 0 := (Nat.pow_pos (by decide)).ne'
    have hq : quotient coeff (Nat.pow 10 (-exp).toNat) 0 = coeff * 10 ^ exp := by
      obtain ⟨k, rfl⟩ : ∃ k : ℕ, exp = -k := ⟨(-exp).toNat, by omega⟩
      simp [quotient, div_eq_mul_inv]
    exact ofRatio_eq hcoeff hden (hq ▸ hv) hd h

/-! ### Literals -/

/-- A double as literals are read: it is finite and has no sign, or it is infinite. -/
def IsUnsigned (x : Float) : Prop := x = infinity ∨ (isFinite x = true ∧ signBit x = false)

theorem IsUnsigned.signBit {x : Float} (h : IsUnsigned x) : signBit x = false := by
  rcases h with rfl | ⟨-, h⟩
  · rw [signBit_eq, code_infinity]
    rfl
  · exact h

theorem isUnsigned_ofCode {n : ℕ} (h : n < infinityCode) : IsUnsigned (ofCode n h) := by
  rw [infinityCode] at h
  refine .inr ⟨?_, ?_⟩
  · rw [isFinite_iff, code_ofCode]
    omega
  · rw [signBit_eq, code_ofCode, decide_eq_false_iff_not]
    omega

theorem isUnsigned_zero : IsUnsigned 0 := by
  have h : (0 : Float) = ofCode 0 (by decide) := code_inj (by simp)
  rw [h]
  exact isUnsigned_ofCode _

theorem isUnsigned_ofRatio (num den : ℕ) (exp : ℤ) : IsUnsigned (ofRatio num den exp) := by
  rw [ofRatio]
  split
  · exact isUnsigned_zero
  · dsimp only
    split
    · exact isUnsigned_ofCode _
    · exact .inl rfl

/-- No literal is negative, and none is a NaN. -/
theorem isUnsigned_readLiteral (literal : List Char) : IsUnsigned (readLiteral literal) := by
  rw [readLiteral, ofScientific]
  split
  · exact isUnsigned_zero
  · split
    · exact .inl rfl
    · split
      · exact isUnsigned_zero
      · split
        · exact isUnsigned_ofRatio _ _ _
        · exact isUnsigned_ofRatio _ _ _

end FieldLang.Decimal
