/-
The double nearest to a quotient.

* `Nearest`, `RoundsTo` : when a whole number, or a double, is nearest to a rational number;
* `IsDouble` : the coefficients and exponents that doubles have;
* `roundDiv_nearest`, `roundingExp_binade` : the two steps of rounding a quotient;
* `ofRatio_eq` : a quotient is rounded to the double that is nearest to it.

Design notes: everything is about rational numbers. A number just below a power of two is rounded
at the exponent below, where the doubles lie closer together, and the carry makes up for it.
-/
import FieldLang.Decimal.Binary
import Mathlib.Algebra.Order.Field.Power
import Mathlib.Data.Rat.Cast.Order
import Mathlib.Tactic.FieldSimp
import Mathlib.Tactic.Linarith
import Mathlib.Tactic.Positivity
import Mathlib.Tactic.Ring

namespace FieldLang.Decimal

/-- The whole number is nearest to the number, and it is even if the next one is as near. -/
structure Nearest (x : ℚ) (m : ℕ) : Prop where
  ge : (m : ℚ) - 1 / 2 ≤ x
  le : x ≤ m + 1 / 2
  tie : m % 2 = 1 → x ≠ m - 1 / 2 ∧ x ≠ m + 1 / 2

theorem Nearest.of_lt {x : ℚ} {m : ℕ} (hge : (m : ℚ) - 1 / 2 < x) (hle : x < m + 1 / 2) :
    Nearest x m :=
  ⟨hge.le, hle.le, fun _ => ⟨hge.ne', hle.ne⟩⟩

/-- There is one such whole number. -/
theorem Nearest.unique {x : ℚ} {m n : ℕ} (hm : Nearest x m) (hn : Nearest x n) : m = n := by
  wlog h : m ≤ n generalizing m n
  · exact (this hn hm (by omega)).symm
  by_contra hne
  have hlt : m + 1 ≤ n := by omega
  have hcast : (m : ℚ) + 1 ≤ n := by exact_mod_cast hlt
  have hmx := hm.le
  have hnx := hn.ge
  have hx : x = m + 1 / 2 := by linarith
  have hn' : (n : ℚ) = m + 1 := by linarith
  have hn'' : n = m + 1 := by exact_mod_cast hn'
  -- of two neighbours one is odd, and it is not nearest to what lies between them
  rcases Nat.mod_two_eq_zero_or_one m with he | ho
  · exact (hn.tie (by omega)).1 (by rw [hx, hn']; ring)
  · exact (hm.tie ho).2 hx

/-- Rounding a quotient yields the nearest whole number. -/
theorem roundDiv_nearest (n : ℕ) {d : ℕ} (hd : 0 < d) : Nearest ((n : ℚ) / d) (roundDiv n d) := by
  have hdq : (0 : ℚ) < d := by exact_mod_cast hd
  have hmod := Nat.mod_lt n hd
  have hn : (n : ℚ) / d = (n / d : ℕ) + (n % d : ℕ) / d := by
    rw [eq_comm, ← mul_right_inj' (ne_of_gt hdq)]
    field_simp
    exact_mod_cast Nat.div_add_mod n d
  obtain ⟨q, hq⟩ : ∃ q, q = n / d := ⟨_, rfl⟩
  obtain ⟨r, hr⟩ : ∃ r, r = n % d := ⟨_, rfl⟩
  rw [← hq, ← hr] at hn
  rw [← hr] at hmod
  have hr0 : (0 : ℚ) ≤ r / d := by positivity
  have hr1 : (r : ℚ) / d < 1 := by
    rw [div_lt_one hdq]
    exact_mod_cast hmod
  rw [roundDiv]
  simp only [← hq, ← hr]
  -- the remainder is less than half of the divisor, or more, or just half of it
  by_cases hlow : 2 * r < d
  · have hhalf : (r : ℚ) / d < 1 / 2 := by
      rw [div_lt_iff₀ hdq]
      have : (2 : ℚ) * r < d := by exact_mod_cast hlow
      linarith
    rw [if_pos hlow]
    exact .of_lt (by linarith) (by linarith)
  · rw [if_neg hlow]
    by_cases hhigh : d < 2 * r
    · have hhalf : 1 / 2 < (r : ℚ) / d := by
        rw [lt_div_iff₀ hdq]
        have : (d : ℚ) < 2 * r := by exact_mod_cast hhigh
        linarith
      rw [if_pos hhigh]
      exact .of_lt (by push_cast; linarith) (by push_cast; linarith)
    · have hhalf : (r : ℚ) / d = 1 / 2 := by
        rw [div_eq_iff (ne_of_gt hdq)]
        have h : 2 * r = d := by omega
        have : (2 : ℚ) * r = d := by exact_mod_cast h
        linarith
      rw [if_neg hhigh]
      by_cases heven : q % 2 = 0
      · rw [if_pos heven]
        exact ⟨by linarith, by linarith, fun h => by omega⟩
      · rw [if_neg heven]
        exact ⟨by push_cast; linarith, by push_cast; linarith, fun h => by omega⟩

/-! ### Doubles -/

/-- A coefficient and an exponent that a finite double has. -/
structure IsDouble (c : ℕ) (e : ℤ) : Prop where
  lt : c < 2 ^ 53
  ge_min : -1074 ≤ e
  le_max : e ≤ 971
  normal : 2 ^ 52 ≤ c ∨ e = -1074

/-- The double `c * 2 ^ e` is nearest to the number `v`. Below a power of two the doubles lie
closer together. -/
structure RoundsTo (v : ℚ) (c : ℕ) (e : ℤ) : Prop where
  nearest : Nearest (v / 2 ^ e) c
  narrow : c = 2 ^ 52 → -1074 < e → (c : ℚ) - 1 / 4 ≤ v / 2 ^ e

theorem div_zpow_add (v : ℚ) (e : ℤ) (k : ℕ) : v / 2 ^ (e + k) = v / 2 ^ e / 2 ^ k := by
  rw [zpow_add₀ (by norm_num), zpow_natCast, div_div]

theorem two_le_two_pow {k : ℕ} (hk : 0 < k) : (2 : ℚ) ≤ 2 ^ k := by
  simpa using pow_le_pow_right₀ (show (1 : ℚ) ≤ 2 by norm_num) hk

/-- The exponent that a number is rounded at: it leaves 53 bits, or it is the least one. -/
structure Binade (v : ℚ) (t : ℤ) : Prop where
  lt : v / 2 ^ t < 2 ^ 53
  ge : 2 ^ 52 ≤ v / 2 ^ t ∨ t = -1074
  ge_min : -1074 ≤ t

/-- A number that rounds to a double is rounded at its exponent, or at the one below if it is
less than a power of two. -/
theorem RoundsTo.exponent {v : ℚ} {c : ℕ} {e t : ℤ} (hv : RoundsTo v c e) (hd : IsDouble c e)
    (hb : Binade v t) : t = e ∨ (c = 2 ^ 52 ∧ e = t + 1) := by
  have hge := hv.nearest.ge
  have hle := hv.nearest.le
  have hc : (c : ℚ) + 1 ≤ 2 ^ 53 := by exact_mod_cast hd.lt
  rcases lt_trichotomy t e with hlt | heq | hgt
  · -- at a smaller exponent the number is at least twice as great a count, which 53 bits hold
    -- only for a power of two that was rounded up to
    right
    obtain ⟨k, hk⟩ : ∃ k : ℕ, e = t + 1 + k := ⟨(e - t - 1).toNat, by omega⟩
    have hx : v / 2 ^ t = 2 * 2 ^ k * (v / 2 ^ e) := by
      have h : v / 2 ^ e = v / 2 ^ t / 2 ^ (k + 1) := by
        rw [← div_zpow_add, hk]
        push_cast
        ring_nf
      rw [h, pow_succ]
      field_simp
    have hhigh := hb.lt
    rw [hx] at hhigh
    have hmin : -1074 < e := lt_of_le_of_lt hb.ge_min hlt
    have hnormal : 2 ^ 52 ≤ c := hd.normal.resolve_right (by omega)
    have h1 : (1 : ℚ) ≤ 2 ^ k := one_le_pow₀ (by norm_num)
    rcases Nat.eq_or_lt_of_le hnormal with hc' | hc'
    · have hnarrow := hv.narrow hc'.symm hmin
      refine ⟨hc'.symm, ?_⟩
      rcases Nat.eq_zero_or_pos k with hk0 | hk0
      · rw [hk, hk0]
        simp
      · exfalso
        have h2 := two_le_two_pow hk0
        have hcq : (c : ℚ) = 2 ^ 52 := by exact_mod_cast hc'.symm
        rw [hcq] at hnarrow
        nlinarith
    · exfalso
      have hcq : (2 : ℚ) ^ 52 + 1 ≤ c := by exact_mod_cast hc'
      nlinarith
  · exact .inl heq
  · -- at a greater exponent fewer than 53 bits are left
    exfalso
    obtain ⟨k, hk⟩ : ∃ k : ℕ, t = e + 1 + k := ⟨(t - e - 1).toNat, by omega⟩
    have hy : v / 2 ^ t = v / 2 ^ e / 2 ^ (k + 1) := by
      rw [← div_zpow_add, hk]
      push_cast
      ring_nf
    have hmin : t ≠ -1074 := by
      have := hd.ge_min
      omega
    have hlow := hb.ge.resolve_right hmin
    have h2 : (2 : ℚ) ≤ 2 ^ (k + 1) := two_le_two_pow k.succ_pos
    rw [hy, le_div_iff₀ (by positivity)] at hlow
    linarith

/-! ### Quotients -/

section Quotient

variable {num den : ℕ} {exp : ℤ}

/-- The number that a quotient with a binary exponent stands for. -/
def quotient (num den : ℕ) (exp : ℤ) : ℚ := num / den * 2 ^ exp

theorem scaled_den_pos (hden : den ≠ 0) (e : ℤ) : 0 < (scaled num den exp e).2 :=
  Nat.mul_pos (Nat.pos_of_ne_zero hden) (Nat.pow_pos (by decide))

/-- A quotient counted in units of a power of two. -/
theorem scaled_eq (hden : den ≠ 0) (e : ℤ) :
    ((scaled num den exp e).1 : ℚ) / (scaled num den exp e).2 = quotient num den exp / 2 ^ e := by
  have hdq : (den : ℚ) ≠ 0 := by exact_mod_cast hden
  have hexp : exp - e = ((exp - e).toNat : ℤ) - ((e - exp).toNat : ℤ) := by omega
  have hpow : (2 : ℚ) ^ exp / 2 ^ e = 2 ^ (exp - e).toNat / 2 ^ (e - exp).toNat := by
    rw [← zpow_sub₀ (by norm_num), hexp, zpow_sub₀ (by norm_num), zpow_natCast, zpow_natCast]
    congr 3
  show ((num * 2 ^ (exp - e).toNat : ℕ) : ℚ) / ((den * 2 ^ (e - exp).toNat : ℕ) : ℚ) = _
  push_cast
  rw [quotient, mul_div_mul_comm, mul_div_assoc, hpow]

/-- The leading bits of numerator and denominator tell the quotient up to a factor of two. -/
theorem quotient_bounds (hnum : num ≠ 0) (hden : den ≠ 0) {e : ℤ}
    (he : e = (num.log2 : ℤ) - (den.log2 : ℤ) + exp - 53) :
    2 ^ 52 ≤ quotient num den exp / 2 ^ e ∧ quotient num den exp / 2 ^ e < 2 ^ 54 := by
  have hdq : (0 : ℚ) < den := by exact_mod_cast Nat.pos_of_ne_zero hden
  have hn₁ : (2 : ℚ) ^ num.log2 ≤ num := by exact_mod_cast Nat.log2_self_le hnum
  have hn₂ : (num : ℚ) < 2 ^ (num.log2 + 1) := by exact_mod_cast Nat.lt_log2_self
  have hd₁ : (2 : ℚ) ^ den.log2 ≤ den := by exact_mod_cast Nat.log2_self_le hden
  have hd₂ : (den : ℚ) < 2 ^ (den.log2 + 1) := by exact_mod_cast Nat.lt_log2_self
  have hv : quotient num den exp / 2 ^ e = num * (2 ^ den.log2 * 2 ^ 53) / (den * 2 ^ num.log2) := by
    have hpow : (2 : ℚ) ^ exp / 2 ^ e = 2 ^ den.log2 * 2 ^ 53 / 2 ^ num.log2 := by
      rw [← zpow_sub₀ (by norm_num), he,
        show exp - ((num.log2 : ℤ) - (den.log2 : ℤ) + exp - 53)
          = ((den.log2 + 53 : ℕ) : ℤ) - (num.log2 : ℕ) by push_cast; ring,
        zpow_sub₀ (by norm_num), zpow_natCast, zpow_natCast, pow_add]
    rw [quotient, mul_div_assoc, hpow, mul_div_mul_comm]
  have hposn : (0 : ℚ) < 2 ^ num.log2 := by positivity
  have hposd : (0 : ℚ) < 2 ^ den.log2 := by positivity
  rw [pow_succ] at hn₂ hd₂
  rw [hv]
  constructor
  · rw [le_div_iff₀ (by positivity)]
    nlinarith
  · rw [div_lt_iff₀ (by positivity)]
    nlinarith

/-- The rounding exponent leaves 53 bits of the quotient, or it is the least one. -/
theorem roundingExp_binade (hnum : num ≠ 0) (hden : den ≠ 0) :
    Binade (quotient num den exp) (roundingExp num den exp) := by
  obtain ⟨e, he⟩ : ∃ e, e = (num.log2 : ℤ) - (den.log2 : ℤ) + exp - 53 := ⟨_, rfl⟩
  obtain ⟨hlow, hhigh⟩ := quotient_bounds hnum hden he
  have hone := div_zpow_add (quotient num den exp) e 1
  rw [roundingExp]
  simp only [← he]
  -- the least exponent may leave fewer bits
  by_cases hmin : e < -1074
  · rw [if_pos hmin]
    obtain ⟨k, hk⟩ : ∃ k : ℕ, (-1074 : ℤ) = e + (k + 1 : ℕ) := ⟨(-1074 - e - 1).toNat, by omega⟩
    refine ⟨?_, .inr rfl, le_refl _⟩
    have h2 : (2 : ℚ) ≤ 2 ^ (k + 1) := two_le_two_pow k.succ_pos
    rw [hk, div_zpow_add, div_lt_iff₀ (by positivity)]
    linarith
  · rw [if_neg hmin]
    have hd : 0 < (scaled num den exp e).2 := scaled_den_pos hden e
    have hdq : (0 : ℚ) < (scaled num den exp e).2 := by exact_mod_cast hd
    have hiff : (scaled num den exp e).1 < Nat.pow 2 53 * (scaled num den exp e).2 ↔
        quotient num den exp / 2 ^ e < 2 ^ 53 := by
      rw [← scaled_eq hden, div_lt_iff₀ hdq]
      exact_mod_cast Iff.rfl
    by_cases hlt : quotient num den exp / 2 ^ e < 2 ^ 53
    · rw [if_pos (hiff.mpr hlt)]
      exact ⟨hlt, .inl hlow, by omega⟩
    · rw [if_neg (fun h => hlt (hiff.mp h))]
      push_cast at hone
      refine ⟨?_, .inl ?_, by omega⟩
      · rw [hone]
        linarith
      · rw [hone]
        linarith [not_lt.mp hlt]

/-- A quotient is rounded to the double that is nearest to it. -/
theorem ofRatio_eq {c : ℕ} {e : ℤ} (hnum : num ≠ 0) (hden : den ≠ 0)
    (hv : RoundsTo (quotient num den exp) c e) (hd : IsDouble c e)
    (h : 2 ^ 52 * (e + 1074).toNat + c < infinityCode) :
    ofRatio num den exp = ofCode (2 ^ 52 * (e + 1074).toNat + c) h := by
  have hb : Binade (quotient num den exp) (roundingExp num den exp) := roundingExp_binade hnum hden
  obtain ⟨t, ht⟩ : ∃ t, t = roundingExp num den exp := ⟨_, rfl⟩
  rw [← ht] at hb
  have hpos : 0 < (scaled num den exp t).2 := scaled_den_pos hden t
  have hnear := roundDiv_nearest (scaled num den exp t).1 hpos
  rw [scaled_eq hden] at hnear
  have hcode : Nat.pow 2 52 * (t + 1074).toNat
      + roundDiv (scaled num den exp t).1 (scaled num den exp t).2
      = 2 ^ 52 * (e + 1074).toNat + c := by
    rcases hv.exponent hd hb with rfl | ⟨hc, he⟩
    · rw [hnear.unique hv.nearest]
      rfl
    · -- the count is rounded up to `2 ^ 53`, and the carry makes the exponent greater by one
      subst he
      have hnarrow := hv.narrow hc (by have := hb.ge_min; omega)
      have hstep : quotient num den exp / 2 ^ t = 2 * (quotient num den exp / 2 ^ (t + 1)) := by
        rw [zpow_add₀ (by norm_num), zpow_one]
        field_simp
      have hcq : (c : ℚ) = 2 ^ 52 := by exact_mod_cast hc
      have hcarry : Nearest (quotient num den exp / 2 ^ t) (2 ^ 53) := by
        refine ⟨?_, ?_, fun h => absurd h (by decide)⟩
        · push_cast
          linarith
        · push_cast
          linarith [hb.lt]
      rw [hnear.unique hcarry, hc]
      show 2 ^ 52 * (t + 1074).toNat + 2 ^ 53 = 2 ^ 52 * (t + 1 + 1074).toNat + 2 ^ 52
      have := hb.ge_min
      omega
  rw [ofRatio, if_neg (by simp [hnum, hden])]
  simp only [← ht, hcode]
  rw [dif_pos h]

end Quotient

end FieldLang.Decimal
