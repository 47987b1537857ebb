/-
Rounded combinations against sharp ones.

* `smoothMin_le`, `smoothMin_eq` : a blend of two distances is at most their minimum, and it is
  their minimum unless both are below the radius;
* `roundMin_le_union`, `roundMin_eq_union` : the same for a row of distances, step by step;
* `roundMax_eq_neg`, `intersect_eq_neg` : maxima are minima of the opposite distances;
* `rounded_bounds_sharp` : both combinations of any row of distances.

Design notes: a blend can be lower than both distances, and it is what the next distance is blended
with. The bound is carried from step to step as a bound between the two running values, and the
equality as a count of the distances below the radius, the running value among them.
-/
import Mathlib.Algebra.Order.Archimedean.Real.Basic
import Mathlib.Analysis.Real.Sqrt
import Mathlib.Tactic.Linarith
import FieldLang.Field.Blend
import FieldLang.Proofs.Number.Exact

namespace FieldLang

open FieldLang.Field

section

variable {K : Type} [Field K] [LinearOrder K] [IsStrictOrderedRing K]

/-- The opposite of a distance is below the radius if the distance is above its opposite. -/
theorem countP_neg (ds : List K) (r : K) :
    (ds.map Neg.neg).countP (· < r) = ds.countP (-r < ·) := by
  rw [List.countP_map]
  exact List.countP_congr fun d _ => by simp [neg_lt]

end

section

variable {K : Type} [Field K] [LinearOrder K] [FloorRing K] [Roots K]

/-! ### Two distances -/

theorem smoothMin_exact (a b r : K) : smoothMin a b r =
    if a < r ∧ b < r then r - Scalar.hypot (r - a) (r - b) else min a b := by
  simp [smoothMin, Scalar.isLess, Scalar.minimum]

/-- Unless both are below the radius, a blend of two distances is their minimum. -/
theorem smoothMin_eq {a b r : K} (h : ¬ (a < r ∧ b < r)) : smoothMin a b r = min a b := by
  rw [smoothMin_exact, if_neg h]

variable [IsStrictOrderedRing K]

/-- It is never more, where a length is at least each of the two sides. -/
theorem smoothMin_le (hlength : ∀ u v : K, 0 < u → 0 < v → max u v ≤ Scalar.hypot u v)
    (a b r : K) : smoothMin a b r ≤ min a b := by
  rw [smoothMin_exact]
  split
  · next h =>
    have hle := max_le_iff.mp (hlength (r - a) (r - b) (sub_pos.mpr h.1) (sub_pos.mpr h.2))
    exact le_min (by linarith [hle.1]) (by linarith [hle.2])
  · exact le_refl _

/-! ### Rows of distances -/

/-- A step keeps the rounded running value below the sharp one. -/
theorem foldl_smoothMin_le (hlength : ∀ u v : K, 0 < u → 0 < v → max u v ≤ Scalar.hypot u v)
    (ds : List K) (r : K) {rounded sharp : K} (h : rounded ≤ sharp) :
    ds.foldl (fun a b => smoothMin a b r) rounded ≤ ds.foldl min sharp := by
  induction ds generalizing rounded sharp with
  | nil => exact h
  | cons d ds ih => exact ih ((smoothMin_le hlength rounded d r).trans (min_le_min_right d h))

theorem roundMin_le_union (hlength : ∀ u v : K, 0 < u → 0 < v → max u v ≤ Scalar.hypot u v)
    (d : K) (ds : List K) (r : K) : roundMin d ds r ≤ union d ds :=
  foldl_smoothMin_le hlength ds r (le_refl d)

omit [IsStrictOrderedRing K] in
/-- Where at most one distance is below the radius, no step rounds anything. -/
theorem roundMin_eq_union {d : K} {ds : List K} {r : K}
    (h : (d :: ds).countP (· < r) ≤ 1) : roundMin d ds r = union d ds := by
  induction ds generalizing d with
  | nil => rfl
  | cons e es ih =>
    have hboth : ¬ (d < r ∧ e < r) := by
      rintro ⟨hd, he⟩
      simp [hd, he] at h
    -- the running value is below the radius only if one of the two distances is
    have hmin : (min d e :: es).countP (· < r) ≤ 1 := by
      by_cases hd : d < r <;> by_cases he : e < r <;> simp_all
    calc roundMin d (e :: es) r = roundMin (smoothMin d e r) es r := rfl
      _ = roundMin (min d e) es r := by rw [smoothMin_eq hboth]
      _ = union (min d e) es := ih hmin
      _ = union d (e :: es) := rfl

/-! ### Maxima -/

omit [IsStrictOrderedRing K] in
theorem roundMax_eq_neg (d : K) (ds : List K) (r : K) :
    roundMax d ds r = -roundMin (-d) (ds.map Neg.neg) r := by
  induction ds generalizing d with
  | nil => exact (neg_neg d).symm
  | cons e es ih =>
    calc roundMax d (e :: es) r = roundMax (-smoothMin (-d) (-e) r) es r := rfl
      _ = -roundMin (-(-smoothMin (-d) (-e) r)) (es.map Neg.neg) r := ih _
      _ = -roundMin (smoothMin (-d) (-e) r) (es.map Neg.neg) r := by rw [neg_neg]
      _ = -roundMin (-d) ((e :: es).map Neg.neg) r := rfl

theorem intersect_eq_neg (d : K) (ds : List K) :
    intersect d ds = -union (-d) (ds.map Neg.neg) := by
  induction ds generalizing d with
  | nil => exact (neg_neg d).symm
  | cons e es ih =>
    calc intersect d (e :: es) = intersect (max d e) es := rfl
      _ = -union (-max d e) (es.map Neg.neg) := ih _
      _ = -union (min (-d) (-e)) (es.map Neg.neg) := by rw [min_neg_neg]
      _ = -union (-d) ((e :: es).map Neg.neg) := rfl

/-- Rounded minima are at most sharp ones and rounded maxima at least sharp ones, with equality
where at most one distance is within the radius. -/
theorem rounded_bounds_sharp (hlength : ∀ u v : K, 0 < u → 0 < v → max u v ≤ Scalar.hypot u v)
    (d : K) (ds : List K) (r : K) :
    (roundMin d ds r ≤ union d ds ∧
        ((d :: ds).countP (· < r) ≤ 1 → roundMin d ds r = union d ds)) ∧
      intersect d ds ≤ roundMax d ds r ∧
        ((d :: ds).countP (-r < ·) ≤ 1 → roundMax d ds r = intersect d ds) := by
  refine ⟨⟨roundMin_le_union hlength d ds r, roundMin_eq_union⟩, ?_, fun h => ?_⟩
  · rw [roundMax_eq_neg, intersect_eq_neg]
    exact neg_le_neg (roundMin_le_union hlength _ _ r)
  · rw [roundMax_eq_neg, intersect_eq_neg, roundMin_eq_union]
    rwa [← List.map_cons, countP_neg]

end

/-! ### Real numbers -/

/-- The roots and lengths of real numbers. -/
noncomputable instance realRoots : Roots ℝ where
  sqrt := Real.sqrt
  hypot x y := Real.sqrt (x ^ 2 + y ^ 2)

theorem max_le_hypot_real {u v : ℝ} (hu : 0 < u) (hv : 0 < v) : max u v ≤ Scalar.hypot u v := by
  have hle {w : ℝ} (hw : 0 < w) (h : w ^ 2 ≤ u ^ 2 + v ^ 2) : w ≤ Scalar.hypot u v :=
    Real.le_sqrt_of_sq_le h
  exact max_le (hle hu (by linarith [sq_nonneg v])) (hle hv (by linarith [sq_nonneg u]))

/-- Distances of seven and six blend to five within a radius of ten, and distances of which only six
is within it do not blend. -/
theorem sevenSix_bounds_sharp : (∀ u v : ℝ, 0 < u → 0 < v → max u v ≤ Scalar.hypot u v) ∧
    (roundMin (7 : ℝ) [6] 10 = 5 ∧ roundMin (7 : ℝ) [6] 10 ≤ union 7 [6]) ∧
    ([12, 6, 15].countP (· < (10 : ℝ)) ≤ 1 ∧ roundMin (12 : ℝ) [6, 15] 10 = union 12 [6, 15]) := by
  have hlength : ∀ u v : ℝ, 0 < u → 0 < v → max u v ≤ Scalar.hypot u v :=
    fun u v hu hv => max_le_hypot_real hu hv
  have hfive : roundMin (7 : ℝ) [6] 10 = 5 := by
    have hroot : Real.sqrt ((10 - 7) ^ 2 + (10 - 6) ^ 2) = 5 := by
      rw [show ((10 - 7) ^ 2 + (10 - 6) ^ 2 : ℝ) = 5 ^ 2 by norm_num, Real.sqrt_sq (by norm_num)]
    calc roundMin (7 : ℝ) [6] 10 = smoothMin 7 6 10 := rfl
      _ = 10 - Real.sqrt ((10 - 7) ^ 2 + (10 - 6) ^ 2) := by
        rw [smoothMin_exact, if_pos (by norm_num)]
        rfl
      _ = 5 := by rw [hroot]; norm_num
  have hcount : [12, 6, 15].countP (· < (10 : ℝ)) ≤ 1 := by norm_num [List.countP_cons]
  exact ⟨hlength, ⟨hfive, (rounded_bounds_sharp hlength 7 [6] 10).1.1⟩, hcount,
    (rounded_bounds_sharp hlength 12 [6, 15] 10).1.2 hcount⟩

end FieldLang
