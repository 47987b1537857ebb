/-
The digits that are written for a double.

* `Digits.value`, `Magnitude.value` : the numbers that digits and magnitudes stand for;
* `roundsTo_of_admits` : a decimal between the midpoints to the neighbours reads back;
* `shortest_roundsTo` : the fewest digits read back to the double.
-/
import FieldLang.Decimal.Shortest
import FieldLang.Proofs.Decimal.Rounding

namespace FieldLang.Decimal

/-- A power with its exponent split into its positive and its negative part. -/
theorem zpow_eq_div {b : ℚ} (hb : b ≠ 0) (e : ℤ) : b ^ e = b ^ e.toNat / b ^ (-e).toNat := by
  rw [← zpow_natCast, ← zpow_natCast, ← zpow_sub₀ hb]
  congr 1
  omega

/-- The number that the digits stand for. -/
def Digits.value (d : Digits) : ℚ := d.coeff * 10 ^ d.exp

/-- Trailing zeros go into the exponent. -/
theorem Digits.strip_value (d : Digits) : d.strip.value = d.value := by
  fun_induction Digits.strip d with
  | case1 d h ih =>
    obtain ⟨k, hk⟩ : ∃ k, d.coeff = 10 * k := ⟨d.coeff / 10, by omega⟩
    have hdiv : d.coeff / 10 = k := by omega
    rw [ih, Digits.value, Digits.value, hdiv, hk, zpow_add₀ (by norm_num), zpow_one]
    push_cast
    ring
  | case2 d h => rfl

namespace Magnitude

/-- The number that a magnitude is. -/
def value (x : Magnitude) : ℚ := x.coeff * 2 ^ x.exp

variable (x : Magnitude)

theorem unit_pos (e : ℤ) : 0 < (x.unit e).1 ∧ 0 < (x.unit e).2 :=
  ⟨Nat.mul_pos (Nat.pow_pos (by decide)) (Nat.pow_pos (by decide)),
    Nat.mul_pos (Nat.pow_pos (by decide)) (Nat.pow_pos (by decide))⟩

/-- A point of a decimal grid, counted in units of the coefficient. -/
theorem unit_eq (e : ℤ) (d : ℕ) :
    (d : ℚ) * 10 ^ e / 2 ^ x.exp = d * (x.unit e).2 / (x.unit e).1 := by
  show _ = (d : ℚ) * ((2 ^ (-x.exp).toNat * 10 ^ e.toNat : ℕ) : ℚ)
    / ((2 ^ x.exp.toNat * 10 ^ (-e).toNat : ℕ) : ℚ)
  rw [zpow_eq_div two_ne_zero x.exp, zpow_eq_div (by norm_num) e]
  push_cast
  field_simp

variable {x}

/-- The points that are admitted read back to the double. -/
theorem roundsTo_of_admits {e : ℤ} {d : ℕ} (hpos : 0 < x.coeff)
    (h : x.admits (x.unit e).1 (x.unit e).2 d = true) :
    RoundsTo (d * 10 ^ e) x.coeff x.exp := by
  obtain ⟨num, hnum⟩ : ∃ n, n = (x.unit e).1 := ⟨_, rfl⟩
  obtain ⟨den, hden⟩ : ∃ n, n = (x.unit e).2 := ⟨_, rfl⟩
  have hn : (0 : ℚ) < num := by exact_mod_cast hnum ▸ (x.unit_pos e).1
  have hq := x.unit_eq e d
  rw [← hnum, ← hden] at hq h
  obtain ⟨c, hc⟩ : ∃ c, c = x.coeff := ⟨_, rfl⟩
  rw [← hc] at hpos
  obtain ⟨below, hbelow⟩ : ∃ b, b = if x.narrowBelow then 4 * c - 1 else 4 * c - 2 := ⟨_, rfl⟩
  have hge : (4 * c - 2 : ℚ) ≤ below := by
    have h : 4 * c ≤ below + 2 := by
      rw [hbelow]
      split <;> omega
    have : (4 * c : ℚ) ≤ below + 2 := by exact_mod_cast h
    linarith
  have hnarrow : c = 2 ^ 52 → -1074 < x.exp → (c : ℚ) - 1 / 4 ≤ below / 4 := by
    intro hc' he
    have hb : 4 * c = below + 1 := by
      rw [hbelow, if_pos (by rw [narrowBelow, ← hc]; simp [hc', he])]
      omega
    have : (4 * c : ℚ) = below + 1 := by exact_mod_cast hb
    linarith
  have hlow (hle : below * num ≤ 4 * d * den) : (below / 4 : ℚ) ≤ d * den / num := by
    have : (below * num : ℚ) ≤ 4 * d * den := by exact_mod_cast hle
    rw [le_div_iff₀ hn]
    linarith
  have hhigh (hle : 4 * d * den ≤ (4 * c + 2) * num) : (d * den / num : ℚ) ≤ c + 1 / 2 := by
    have : (4 * d * den : ℚ) ≤ (4 * c + 2) * num := by exact_mod_cast hle
    rw [div_le_iff₀ hn]
    linarith
  rw [admits, ← hc] at h
  simp only [← hbelow] at h
  rw [← hc]
  -- an even coefficient is read back from the midpoints too, an odd one only from between them
  by_cases heven : c % 2 = 0
  · rw [if_pos heven] at h
    simp only [Bool.and_eq_true, decide_eq_true_iff] at h
    have hlow := hlow h.1
    have hhigh := hhigh h.2
    refine ⟨⟨?_, ?_, fun h => by omega⟩, fun hc' he => ?_⟩
    · rw [hq]
      linarith
    · rw [hq]
      exact hhigh
    · rw [hq]
      exact (hnarrow hc' he).trans hlow
  · rw [if_neg heven] at h
    simp only [Bool.and_eq_true, decide_eq_true_iff] at h
    have hlt : (below / 4 : ℚ) < d * den / num := by
      have : (below * num : ℚ) < 4 * d * den := by exact_mod_cast h.1
      rw [lt_div_iff₀ hn]
      linarith
    have hgt : (d * den / num : ℚ) < c + 1 / 2 := by
      have : (4 * d * den : ℚ) < (4 * c + 2) * num := by exact_mod_cast h.2
      rw [div_lt_iff₀ hn]
      linarith
    refine ⟨.of_lt ?_ ?_, fun hc' => by omega⟩
    · rw [hq]
      linarith
    · rw [hq]
      exact hgt

/-- What is chosen on a grid is a point that is admitted. -/
theorem onGrid?_admits {e : ℤ} {d : Digits} (h : x.onGrid? e = some d) :
    d.exp = e ∧ x.admits (x.unit e).1 (x.unit e).2 d.coeff = true := by
  rw [onGrid?] at h
  simp only at h
  split at h
  · cases h
  · next hlo _ =>
    cases h
    exact ⟨rfl, hlo⟩
  · next _ hhi =>
    cases h
    exact ⟨rfl, hhi⟩
  · next hlo hhi =>
    split at h
    · cases h
      exact ⟨rfl, hlo⟩
    · split at h
      · cases h
        exact ⟨rfl, hhi⟩
      · split at h
        · cases h
          exact ⟨rfl, hlo⟩
        · cases h
          exact ⟨rfl, hhi⟩

theorem exact_value (x : Magnitude) : x.exact.value = x.value := by
  rw [exact, value]
  split
  · next h =>
    obtain ⟨k, hk⟩ : ∃ k : ℕ, x.exp = k := ⟨x.exp.toNat, by omega⟩
    rw [Digits.value, hk]
    simp
  · next h =>
    obtain ⟨k, hk⟩ : ∃ k : ℕ, x.exp = -k := ⟨(-x.exp).toNat, by omega⟩
    rw [Digits.value, hk]
    simp only [neg_neg, Int.toNat_natCast, Nat.pow_eq, Nat.cast_mul, Nat.cast_pow, Nat.cast_ofNat,
      zpow_neg, zpow_natCast]
    rw [show (10 : ℚ) = 5 * 2 by norm_num, mul_pow]
    field_simp

/-- The number that a magnitude is rounds to it. -/
theorem roundsTo_value (x : Magnitude) : RoundsTo x.value x.coeff x.exp := by
  have h : x.value / 2 ^ x.exp = x.coeff := by
    rw [value]
    field_simp
  refine ⟨.of_lt ?_ ?_, fun _ _ => ?_⟩
  all_goals
    rw [h]
    linarith

end Magnitude

/-- The fewest digits read back to the double. -/
theorem shortest_roundsTo (x : Magnitude) : RoundsTo (shortest x).value x.coeff x.exp := by
  rw [shortest]
  by_cases hzero : x.coeff = 0
  · rw [if_pos hzero]
    have hv : Digits.value ⟨0, 0⟩ = x.value := by simp [Digits.value, Magnitude.value, hzero]
    rw [hv]
    exact x.roundsTo_value
  rw [if_neg hzero, Digits.strip_value]
  cases hfound : (List.range 17).findSome? fun n => x.onGrid? (x.places - (n + 1 : ℕ)) with
  | none =>
    rw [Option.getD_none, x.exact_value]
    exact x.roundsTo_value
  | some d =>
    obtain ⟨n, -, hn⟩ := List.exists_of_findSome?_eq_some hfound
    obtain ⟨he, hd⟩ := Magnitude.onGrid?_admits hn
    rw [← he] at hd
    exact Magnitude.roundsTo_of_admits (Nat.pos_of_ne_zero hzero) hd

theorem whole_value {x : Magnitude} (h : x.isWhole = true) : (x.whole : ℚ) = x.value := by
  have hmod : x.coeff * Nat.pow 2 x.exp.toNat % Nat.pow 2 (-x.exp).toNat = 0 := by
    simpa [Magnitude.isWhole] using h
  have hmul : x.whole * 2 ^ (-x.exp).toNat = x.coeff * 2 ^ x.exp.toNat := by
    rw [Magnitude.whole]
    exact Nat.div_mul_cancel (Nat.dvd_of_mod_eq_zero hmod)
  have hq : (x.whole : ℚ) * 2 ^ (-x.exp).toNat = x.coeff * 2 ^ x.exp.toNat := by exact_mod_cast hmul
  rw [Magnitude.value, zpow_eq_div two_ne_zero]
  field_simp
  exact hq

end FieldLang.Decimal
