/-
The range of noise.

* `amplitude`, `noiseBound`, `octaveCount` : the weight of an octave, the sum of the weights, and
  the number of octaves that a count asks for;
* `hash3_mem` : a hash is between zero and one;
* `weight_mem`, `mix_mem` : so are smooth weights, and what they mix from numbers between zero and
  one;
* `latticeNoise_mem`, `latticeNoise_intCast` : noise of a cell, and at its corners;
* `octave_le`, `octaves_le` : what one octave adds, and a run of octaves from it;
* `noise_in_range` : all of it for any point, scale, offset and count.

Design notes: the loop runs through all octaves that there can be, and adds those that the count
asks for. After `k` of them the sum is bounded by the weights of the first `min k n`, and this is
what one more octave keeps.
-/
import Mathlib.Algebra.BigOperators.Intervals
import Mathlib.Algebra.Order.BigOperators.Group.Finset
import Mathlib.Data.Rat.Floor
import Mathlib.Data.Rat.Sqrt
import Mathlib.Tactic.Linarith
import Mathlib.Tactic.Positivity
import Mathlib.Tactic.Ring
import FieldLang.Field.Noise
import FieldLang.Proofs.Number.Exact

namespace FieldLang

open FieldLang.Field

/-! ### Weights and counts of octaves -/

section Weights

variable {K : Type} [Field K]

variable (K) in
/-- The weight of an octave: the sum of `1 / (2 * j)` over the octaves up to it. -/
def amplitude (k : ℕ) : K := ∑ j ∈ Finset.Icc 1 k, 1 / (2 * (j : K))

variable (K) in
/-- The sum of the weights of the first octaves. -/
def noiseBound (n : ℕ) : K := ∑ k ∈ Finset.Icc 1 n, amplitude K k

theorem amplitude_succ (k : ℕ) :
    amplitude K (k + 1) = amplitude K k + 1 / (2 * ((k + 1 : ℕ) : K)) :=
  Finset.sum_Icc_succ_top (by omega) _

theorem amplitude_nonneg [LinearOrder K] [IsStrictOrderedRing K] (k : ℕ) : 0 ≤ amplitude K k :=
  Finset.sum_nonneg fun _ _ => by positivity

theorem noiseBound_succ (n : ℕ) :
    noiseBound K (n + 1) = noiseBound K n + amplitude K (n + 1) :=
  Finset.sum_Icc_succ_top (by omega) _

end Weights

section Count

variable {K : Type} [Field K] [LinearOrder K] [FloorRing K]

/-- The number of octaves that a count asks for: its digits behind the point are dropped, and what
is left is clamped to the range from zero to sixteen. -/
def octaveCount (count : K) : ℕ := (max 0 (min (maxOctaves : ℤ) (truncate count))).toNat

variable {count : K}

theorem octaveCount_le : octaveCount count ≤ maxOctaves := by
  rw [octaveCount]
  omega

/-- A count below one asks for none. -/
theorem octaveCount_of_lt_one (h : count < 1) : octaveCount count = 0 := by
  have htruncate : truncate count ≤ 0 := by
    rw [truncate]
    split
    · next hneg => exact Int.ceil_le.mpr (by exact_mod_cast hneg.le)
    · exact Int.floor_le_iff.mpr (by simpa using h)
  rw [octaveCount]
  omega

/-- Which of the octaves that there can be are asked for. -/
theorem lt_octaveCount_iff [IsStrictOrderedRing K] {k : ℕ} (hk : k < maxOctaves) :
    k < octaveCount count ↔ ((k + 1 : ℕ) : K) ≤ truncate count := by
  have hcast : ((k + 1 : ℕ) : K) ≤ truncate count ↔ ((k + 1 : ℕ) : ℤ) ≤ truncate count := by
    rw [← Int.cast_natCast, Int.cast_le]
  rw [hcast, octaveCount]
  omega

end Count

section

variable {K : Type} [Field K] [LinearOrder K] [IsStrictOrderedRing K] [FloorRing K] [Roots K]

/-! ### Hashes -/

/-- A hash is between zero and one. -/
theorem hash3_mem (x y z : K) : hash3 x y z ∈ Set.Ico (0 : K) 1 :=
  ⟨Int.fract_nonneg _, Int.fract_lt_one _⟩

/-! ### Cells -/

omit [IsStrictOrderedRing K] in
theorem weight_exact (f : K) : weight f = f * f * (3 - 2 * f) := by
  have hthree : (3.0 : K) = 3 := by norm_num
  have htwo : (2.0 : K) = 2 := by norm_num
  calc weight f = f * f * (3.0 - 2.0 * f) := rfl
    _ = f * f * (3 - 2 * f) := by rw [hthree, htwo]

/-- The weight of a fraction is a fraction. -/
theorem weight_mem {f : K} (h : f ∈ Set.Ico (0 : K) 1) : weight f ∈ Set.Ico (0 : K) 1 := by
  obtain ⟨hnonneg, hlt⟩ := h
  rw [weight_exact]
  constructor
  · exact mul_nonneg (mul_nonneg hnonneg hnonneg) (by linarith)
  · -- what is left to one is a product of positive numbers
    have hleft : 1 - f * f * (3 - 2 * f) = (1 - f) * (1 - f) * (1 + 2 * f) := by ring
    have hpos : 0 < (1 - f) * (1 - f) * (1 + 2 * f) :=
      mul_pos (mul_pos (by linarith) (by linarith)) (by linarith)
    linarith

/-- What is mixed from numbers below one, with a weight below one, is below one. -/
theorem mix_mem {a b t : K} (ha : a ∈ Set.Ico (0 : K) 1) (hb : b ∈ Set.Ico (0 : K) 1)
    (ht : t ∈ Set.Ico (0 : K) 1) : Scalar.mix a b t ∈ Set.Ico (0 : K) 1 := by
  obtain ⟨ht₀, ht₁⟩ := ht
  have hrest : 0 < 1 - t := sub_pos.mpr ht₁
  rw [mix_exact]
  constructor
  · exact add_nonneg (mul_nonneg ha.1 hrest.le) (mul_nonneg hb.1 ht₀)
  · calc a * (1 - t) + b * t < 1 * (1 - t) + b * t :=
          add_lt_add_left (mul_lt_mul_of_pos_right ha.2 hrest) _
      _ ≤ 1 * (1 - t) + 1 * t := add_le_add_right (mul_le_mul_of_nonneg_right hb.2.le ht₀) _
      _ = 1 := by ring

omit [IsStrictOrderedRing K] in
/-- A mixture with no weight on the second number is the first one. -/
theorem mix_zero (a b : K) : Scalar.mix a b 0 = a := by
  rw [mix_exact]
  ring

/-- Noise is twice a number between zero and one that is mixed from the corners of the cell, less
one. -/
theorem latticeNoise_mixed (x y z : K) :
    ∃ m ∈ Set.Ico (0 : K) 1, latticeNoise x y z = 2 * m - 1 := by
  have hweight (c : K) : weight (c - ⌊c⌋) ∈ Set.Ico (0 : K) 1 :=
    weight_mem ⟨Int.fract_nonneg c, Int.fract_lt_one c⟩
  obtain ⟨m, hm, hmem⟩ : ∃ m, latticeNoise x y z = m * 2.0 - 1.0 ∧ m ∈ Set.Ico (0 : K) 1 :=
    ⟨_, rfl, mix_mem
      (mix_mem (mix_mem (hash3_mem _ _ _) (hash3_mem _ _ _) (hweight x))
        (mix_mem (hash3_mem _ _ _) (hash3_mem _ _ _) (hweight x)) (hweight y))
      (mix_mem (mix_mem (hash3_mem _ _ _) (hash3_mem _ _ _) (hweight x))
        (mix_mem (hash3_mem _ _ _) (hash3_mem _ _ _) (hweight x)) (hweight y)) (hweight z)⟩
  refine ⟨m, hmem, ?_⟩
  rw [hm]
  norm_num
  ring

/-- Noise is between minus one and one. -/
theorem latticeNoise_mem (x y z : K) : latticeNoise x y z ∈ Set.Ico (-1 : K) 1 := by
  obtain ⟨m, ⟨hnonneg, hlt⟩, hm⟩ := latticeNoise_mixed x y z
  rw [hm]
  exact ⟨by linarith, by linarith⟩

/-- At the corners of the cells it is that of the hash. -/
theorem latticeNoise_intCast (i j k : ℤ) :
    latticeNoise (i : K) (j : K) (k : K) = 2 * hash3 (i : K) (j : K) (k : K) - 1 := by
  have hweight (n : ℤ) : weight ((n : K) - ⌊(n : K)⌋) = 0 := by
    rw [weight_exact, Int.floor_intCast, sub_self]
    ring
  have hcorner (n : ℤ) : (⌊(n : K)⌋ : K) + 0.0 = n := by
    rw [Int.floor_intCast]
    norm_num
  obtain ⟨b₁, b₂, b₃, hmixed⟩ : ∃ b₁ b₂ b₃ : K, latticeNoise (i : K) (j : K) (k : K) =
      Scalar.mix (Scalar.mix (Scalar.mix (hash3 ((⌊(i : K)⌋ : K) + 0.0) ((⌊(j : K)⌋ : K) + 0.0)
        ((⌊(k : K)⌋ : K) + 0.0)) b₁ (weight ((i : K) - ⌊(i : K)⌋))) b₂
        (weight ((j : K) - ⌊(j : K)⌋))) b₃ (weight ((k : K) - ⌊(k : K)⌋)) * 2.0 - 1.0 :=
    ⟨_, _, _, rfl⟩
  rw [hmixed]
  simp only [hweight, mix_zero, hcorner]
  norm_num
  ring

/-! ### Octaves -/

omit [IsStrictOrderedRing K] in
/-- One octave. -/
theorem octaves_succ (count : K) (n k : ℕ) (px py pz total : K) :
    octaves count (n + 1) (k + 1) (amplitude K k) px py pz total =
      octaves count n (k + 2) (amplitude K (k + 1)) (px * 2.03) (py * 2.03) (pz * 2.03)
        (if ((k + 1 : ℕ) : K) ≤ truncate count then
          total + amplitude K (k + 1) * latticeNoise (px * 2.03) (py * 2.03) (pz * 2.03)
        else total) := by
  have hnext : amplitude K k + 1.0 / (2.0 * ((k + 1 : ℕ) : K)) = amplitude K (k + 1) := by
    rw [amplitude_succ]
    norm_num
  calc octaves count (n + 1) (k + 1) (amplitude K k) px py pz total
      = octaves count n (k + 2) (amplitude K k + 1.0 / (2.0 * ((k + 1 : ℕ) : K)))
          (px * 2.03) (py * 2.03) (pz * 2.03)
          (if decide (((k + 1 : ℕ) : K) ≤ truncate count) then
            total + (amplitude K k + 1.0 / (2.0 * ((k + 1 : ℕ) : K))) *
              latticeNoise (px * 2.03) (py * 2.03) (pz * 2.03)
          else total) := rfl
    _ = _ := by
      rw [hnext]
      simp only [decide_eq_true_eq]

/-- An octave that is asked for adds at most its weight. -/
theorem octave_le {count : K} {k : ℕ} (hk : k < maxOctaves) {total : K}
    (h : |total| ≤ noiseBound K (min k (octaveCount count))) (px py pz : K) :
    |if ((k + 1 : ℕ) : K) ≤ truncate count then
        total + amplitude K (k + 1) * latticeNoise px py pz else total| ≤
      noiseBound K (min (k + 1) (octaveCount count)) := by
  by_cases hasked : k < octaveCount count
  · rw [if_pos ((lt_octaveCount_iff hk).mp hasked), min_eq_left hasked, noiseBound_succ]
    rw [min_eq_left hasked.le] at h
    obtain ⟨hlow, hhigh⟩ := latticeNoise_mem px py pz
    have hnoise : |amplitude K (k + 1) * latticeNoise px py pz| ≤ amplitude K (k + 1) := by
      rw [abs_mul, abs_of_nonneg (amplitude_nonneg (k + 1))]
      exact mul_le_of_le_one_right (amplitude_nonneg (k + 1)) (abs_le.mpr ⟨hlow, hhigh.le⟩)
    exact (abs_add_le _ _).trans (add_le_add h hnoise)
  · rw [if_neg (fun hle => hasked ((lt_octaveCount_iff hk).mpr hle)), min_eq_right (by omega)]
    rwa [min_eq_right (by omega)] at h

/-- After some octaves the sum is bounded by the weights of those that are asked for. -/
theorem octaves_le {count : K} {n k : ℕ} (hn : k + n ≤ maxOctaves) {total : K}
    (h : |total| ≤ noiseBound K (min k (octaveCount count))) (px py pz : K) :
    |octaves count n (k + 1) (amplitude K k) px py pz total| ≤
      noiseBound K (min (k + n) (octaveCount count)) := by
  induction n generalizing k total px py pz with
  | zero => exact h
  | succ n ih =>
    rw [octaves_succ, Nat.add_comm n 1, ← Nat.add_assoc]
    exact ih (by omega) (octave_le (by omega) h _ _ _) _ _ _

/-- Noise of any number of octaves is bounded by their weights. -/
theorem valueNoise_le (x y z scale offset count : K) :
    |valueNoise x y z scale offset count| ≤ noiseBound K (octaveCount count) := by
  have hzero : (0.0 : K) = 0 := by norm_num
  have hstart : |(0.0 : K)| ≤ noiseBound K (min 0 (octaveCount count)) := by
    rw [hzero, Nat.zero_min]
    simp [noiseBound]
  have hamplitude : amplitude K 0 = 0.0 := by
    rw [hzero]
    simp [amplitude]
  calc |valueNoise x y z scale offset count|
      = |octaves count maxOctaves (0 + 1) (amplitude K 0) (x * scale + offset)
          (y * scale + offset) (z * scale + offset) 0.0| := by
        rw [hamplitude]
        rfl
    _ ≤ noiseBound K (min (0 + maxOctaves) (octaveCount count)) :=
      octaves_le (by omega) hstart _ _ _
    _ = noiseBound K (octaveCount count) := by rw [Nat.zero_add, min_eq_right octaveCount_le]

/-- A hash is between zero and one; noise of a cell is between minus one and one, and that of the
hash at whole numbers; noise with a count of octaves is bounded by the weights of the octaves, and
it is zero with a count below one. -/
theorem noise_in_range (x y z : K) :
    (0 ≤ hash3 x y z ∧ hash3 x y z < 1) ∧
      (-1 ≤ latticeNoise x y z ∧ latticeNoise x y z < 1) ∧
      (∀ i j k : ℤ, x = i → y = j → z = k → latticeNoise x y z = 2 * hash3 x y z - 1) ∧
      ∀ scale offset count : K,
        (-noiseBound K (octaveCount count) ≤ valueNoise x y z scale offset count ∧
          valueNoise x y z scale offset count ≤ noiseBound K (octaveCount count)) ∧
        (count < 1 → valueNoise x y z scale offset count = 0) := by
  refine ⟨hash3_mem x y z, latticeNoise_mem x y z, ?_, fun scale offset count => ?_⟩
  · rintro i j k rfl rfl rfl
    exact latticeNoise_intCast i j k
  · have hbound := valueNoise_le x y z scale offset count
    refine ⟨abs_le.mp hbound, fun hcount => ?_⟩
    rw [octaveCount_of_lt_one hcount] at hbound
    exact abs_nonpos_iff.mp (by simpa [noiseBound] using hbound)

end

/-- The roots and lengths of rational numbers, where these are rational. -/
instance rationalRoots : Roots ℚ where
  sqrt := Rat.sqrt
  hypot x y := Rat.sqrt (x * x + y * y)

/-- Noise at a corner of a cell, with two octaves and a half, and with half an octave. -/
theorem corner_noise_in_range :
    (((2 : ℤ) : ℚ) = 2 ∧ latticeNoise (2 : ℚ) (-1) 3 = 2 * hash3 2 (-1) 3 - 1) ∧
      (octaveCount (5 / 2 : ℚ) = 2 ∧ noiseBound ℚ 2 = 5 / 4 ∧
        -(5 / 4) ≤ valueNoise (2 : ℚ) (-1) 3 (7 / 3) (1 / 2) (5 / 2) ∧
        valueNoise (2 : ℚ) (-1) 3 (7 / 3) (1 / 2) (5 / 2) ≤ 5 / 4) ∧
      ((1 / 2 : ℚ) < 1 ∧ valueNoise (2 : ℚ) (-1) 3 (7 / 3) (1 / 2) (1 / 2) = 0) := by
  obtain ⟨-, -, hcorner, hoctaves⟩ := noise_in_range (2 : ℚ) (-1) 3
  have hcount : octaveCount (5 / 2 : ℚ) = 2 := by decide +kernel
  have hbound : noiseBound ℚ 2 = 5 / 4 := by decide +kernel
  have hrange := (hoctaves (7 / 3) (1 / 2) (5 / 2)).1
  rw [hcount, hbound] at hrange
  exact ⟨⟨by norm_num, hcorner 2 (-1) 3 (by norm_num) (by norm_num) (by norm_num)⟩,
    ⟨hcount, hbound, hrange⟩, by norm_num, (hoctaves (7 / 3) (1 / 2) (1 / 2)).2 (by norm_num)⟩

end FieldLang
