/-
The digits of natural numbers.

* `ofDigits_natText` : the digits of a number stand for it;
* `exists_zeros_natText` : every row of digits is that of the number it stands for, with zeros in
  front of it.
-/
import FieldLang.Decimal.Notation
import FieldLang.Decimal.Reader
import Mathlib.Data.List.Induction
import Mathlib.Tactic.Ring

namespace FieldLang.Decimal

theorem isDigit_of_mem_natText {n : ℕ} {c : Char} (h : c ∈ natText n) : c.isDigit = true :=
  Nat.isDigit_of_mem_toDigits (by decide) (by decide) h

theorem natText_ne_nil (n : ℕ) : natText n ≠ [] := Nat.toDigits_ne_nil

theorem ofDigits_natText (n : ℕ) : ofDigits (natText n) = n := Nat.ofDigitChars_ten_toDigits

theorem ofDigits_append (s t : List Char) :
    ofDigits (s ++ t) = t.foldl (fun n c => 10 * n + (c.toNat - 48)) (ofDigits s) :=
  List.foldl_append

theorem ofDigits_append_zeros (s : List Char) (k : ℕ) :
    ofDigits (s ++ List.replicate k '0') = ofDigits s * 10 ^ k := by
  induction k with
  | zero => simp
  | succ k ih =>
    rw [List.replicate_succ', ← List.append_assoc, ofDigits_append, ih]
    show 10 * _ + 0 = _
    ring

theorem ofDigits_zeros_append (s : List Char) (k : ℕ) :
    ofDigits (List.replicate k '0' ++ s) = ofDigits s := by
  induction k with
  | zero => simp
  | succ k ih => exact ih

/-- Appending a digit counts the others ten times. -/
theorem ofDigits_append_digit (s : List Char) (c : Char) :
    ofDigits (s ++ [c]) = 10 * ofDigits s + (c.toNat - 48) := ofDigits_append s [c]

/-- A digit is the one that its value is written with. -/
theorem digitChar_of_isDigit {c : Char} (h : c.isDigit = true) :
    c.toNat - 48 < 10 ∧ (c.toNat - 48).digitChar = c := by
  have hdigits : ∀ k < 10, ((Char.ofNat (48 + k)).toNat - 48).digitChar = Char.ofNat (48 + k) := by
    decide
  simp only [Char.isDigit, Bool.and_eq_true, decide_eq_true_eq, ge_iff_le, UInt32.le_iff_toNat_le]
    at h
  obtain ⟨hlow, hhigh⟩ := h
  have hlow : 48 ≤ c.toNat := hlow
  have hhigh : c.toNat ≤ 57 := hhigh
  have hc : Char.ofNat (48 + (c.toNat - 48)) = c := by
    rw [Nat.add_sub_cancel' hlow, Char.ofNat_toNat]
  refine ⟨by omega, ?_⟩
  have := hdigits (c.toNat - 48) (by omega)
  rwa [hc] at this

/-- Every row of digits is that of a number with zeros in front of it. -/
theorem exists_zeros_natText {ds : List Char} (hne : ds ≠ []) (hd : ∀ c ∈ ds, c.isDigit = true) :
    ∃ zeros, ds = List.replicate zeros '0' ++ natText (ofDigits ds) := by
  induction ds using List.reverseRecOn with
  | nil => exact absurd rfl hne
  | append_singleton ds c ih =>
    obtain ⟨hlt, hc⟩ := digitChar_of_isDigit (hd c (by simp))
    rw [ofDigits_append_digit]
    by_cases hds : ds = []
    · subst hds
      refine ⟨0, ?_⟩
      rw [show 10 * ofDigits [] + (c.toNat - 48) = c.toNat - 48 from Nat.zero_add _, natText,
        Nat.toDigits_of_lt_base hlt, hc]
      rfl
    · obtain ⟨zeros, hzeros⟩ := ih hds fun e he => hd e (by simp [he])
      by_cases hzero : ofDigits ds = 0
      · -- the digits before are all zeros, and the number is the last digit
        refine ⟨zeros + 1, ?_⟩
        rw [hzero] at hzeros ⊢
        rw [Nat.mul_zero, Nat.zero_add, natText, Nat.toDigits_of_lt_base hlt, hc]
        rw [hzeros, List.replicate_succ']
        rfl
      · refine ⟨zeros, ?_⟩
        have hdiv : (10 * ofDigits ds + (c.toNat - 48)) / 10 = ofDigits ds := by omega
        have hmod : (10 * ofDigits ds + (c.toNat - 48)) % 10 = c.toNat - 48 := by omega
        rw [natText, Nat.toDigits_of_base_le (by decide) (by omega), hdiv, hmod, hc,
          ← List.append_assoc, ← natText, ← hzeros]

end FieldLang.Decimal
