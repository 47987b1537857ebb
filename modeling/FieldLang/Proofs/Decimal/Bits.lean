/-
The bits of doubles.

* `code` : the number that the bits of a double are, which tells doubles apart;
* `parts_finite` : the code of a finite double is its coefficient and its exponent;
* `code_neg` : a change of sign flips the leading bit.
-/
import FieldLang.Proofs.Decimal.Rounding
import Mathlib.Tactic.ByContra

namespace FieldLang.Decimal

open Float.Model Float.Model.UnpackedFloat

/-- The number that the bits of a double are. -/
def code (x : Float) : Nat := x.toBits.toNat

theorem code_lt (x : Float) : code x < 2 ^ 64 := x.toBits.toNat_lt

/-- A double is its bits. -/
theorem code_inj {x y : Float} (h : code x = code y) : x = y := by
  obtain ⟨⟨x, hx⟩⟩ := x
  obtain ⟨⟨y, hy⟩⟩ := y
  obtain rfl : x = y := UInt64.toNat_inj.mp h
  rfl

@[simp]
theorem code_ofCode {n : Nat} (h : n < infinityCode) : code (ofCode n h) = n := by
  show n % 2 ^ 64 = n
  rw [infinityCode] at h
  omega

@[simp]
theorem code_infinity : code infinity = infinityCode := by
  decide

@[simp]
theorem code_zero : code 0 = 0 := by
  decide

theorem signBit_eq (x : Float) : signBit x = decide (2 ^ 63 ≤ code x) := by
  have hx := code_lt x
  have hshift : (x.toBits >>> 63).toNat = code x / 2 ^ 63 := by
    rw [UInt64.toNat_shiftRight, Nat.shiftRight_eq_div_pow]
    rfl
  rw [signBit, Bool.eq_iff_iff, beq_iff_eq, decide_eq_true_iff, ← UInt64.toNat_inj, hshift]
  show code x / 2 ^ 63 = 1 ↔ _
  omega

theorem biased_eq (x : Float) : ((x.toBits >>> 52) &&& 0x7FF).toNat = code x / 2 ^ 52 % 2 ^ 11 := by
  rw [UInt64.toNat_and, UInt64.toNat_shiftRight, Nat.shiftRight_eq_div_pow]
  exact Nat.and_two_pow_sub_one_eq_mod _ 11

theorem fraction_eq (x : Float) : (x.toBits &&& 0xFFFFFFFFFFFFF).toNat = code x % 2 ^ 52 := by
  rw [UInt64.toNat_and]
  exact Nat.and_two_pow_sub_one_eq_mod _ 52

theorem toNat_packComponents (s : Sign) (e : BitVec 11) (m : BitVec 52) :
    (packComponents Format.binary64 s e m).toNat
      = s.toBitVec.toNat * 2 ^ 63 + e.toNat * 2 ^ 52 + m.toNat := by
  show (s.toBitVec ++ e ++ m).toNat = _
  rw [BitVec.toNat_append, BitVec.toNat_append, Nat.shiftLeft_eq,
    Nat.shiftLeft_eq, Nat.mul_comm s.toBitVec.toNat, ← Nat.two_pow_add_eq_or_of_lt e.isLt]
  rw [Nat.mul_comm _ (2 ^ 52), ← Nat.two_pow_add_eq_or_of_lt m.isLt]
  ring

section Unpacked

variable (b : BitVec 64)

theorem toNat_unpackSign : (@unpackSign Format.binary64 b).toNat = b.toNat / 2 ^ 63 := by
  show (b.extractLsb 63 63).toNat = _
  rw [BitVec.extractLsb, BitVec.extractLsb'_toNat, Nat.shiftRight_eq_div_pow]
  omega

theorem toNat_unpackExponent :
    (@unpackExponent Format.binary64 b).toNat = b.toNat / 2 ^ 52 % 2 ^ 11 := by
  simp [unpackExponent, BitVec.extractLsb, Nat.shiftRight_eq_div_pow]

theorem toNat_unpackMantissa :
    (@unpackMantissa Format.binary64 b).toNat = b.toNat % 2 ^ 52 := by
  simp [unpackMantissa, BitVec.extractLsb]

theorem toNat_neg_unpackSign : (-Sign.ofBitVec (@unpackSign Format.binary64 b)).toBitVec.toNat =
    1 - b.toNat / 2 ^ 63 := by
  rw [← toNat_unpackSign, Sign.ofBitVec]
  split
  · next hz => rw [hz]; rfl
  · next hz =>
    have hlt := (@unpackSign Format.binary64 b).isLt
    rw [← BitVec.toNat_inj] at hz
    have hone : (@unpackSign Format.binary64 b).toNat = 1 := by
      change ¬ _ = 0 at hz
      omega
    rw [hone]
    rfl

/-- What bits are unpacked into, unless they are those of an infinity or a NaN. -/
theorem unpack_cases {s : Sign} {e : BitVec 11} {m : BitVec 52}
    (hs : s = Sign.ofBitVec (@unpackSign Format.binary64 b))
    (he : e = @unpackExponent Format.binary64 b) (hm : m = @unpackMantissa Format.binary64 b)
    (hne : e ≠ -1#11) :
    (e = 0#11 ∧ m = 0#52 ∧ UnpackedFloat.unpack Format.binary64 b = .zero s) ∨
      (e = 0#11 ∧ m ≠ 0#52 ∧ ∃ hpos, UnpackedFloat.unpack Format.binary64 b =
        .finite s m.toNat ((e.toNat : ℤ) - (Format.binary64.exponentBias + (52 : ℕ)) + 1) hpos) ∨
      (e ≠ 0#11 ∧ ∃ hpos, UnpackedFloat.unpack Format.binary64 b =
        .finite s (1#1 ++ m).toNat ((e.toNat : ℤ) - (Format.binary64.exponentBias + (52 : ℕ))) hpos) := by
  subst hs he hm
  delta UnpackedFloat.unpack
  dsimp only
  rw [if_neg hne]
  by_cases hzero : @unpackExponent Format.binary64 b = 0#11
  · rw [if_pos hzero]
    by_cases hmzero : @unpackMantissa Format.binary64 b = 0#52
    · rw [dif_pos hmzero]
      exact .inl ⟨hzero, hmzero, rfl⟩
    · rw [dif_neg hmzero]
      exact .inr (.inl ⟨hzero, hmzero, _, rfl⟩)
  · rw [if_neg hzero]
    exact .inr (.inr ⟨hzero, _, rfl⟩)

/-- The bits of a finite double with the other sign. -/
theorem pack_neg_finite (s : Sign) (m : ℕ) (e : ℤ) (hm : 0 < m) :
    UnpackedFloat.pack Format.binary64 (UnpackedFloat.finite s m e hm).neg =
      if 2 ^ 11 ≤ (e + Format.binary64.exponentBias + (52 : ℕ)).toNat + 1 then
        packedInfinity Format.binary64 (-s)
      else if m.log2 + 1 = 53 then
        packComponents Format.binary64 (-s)
          (BitVec.ofNat 11 (e + Format.binary64.exponentBias + (52 : ℕ)).toNat) (BitVec.ofNat 52 m)
      else packComponents Format.binary64 (-s) (0#11) (BitVec.ofNat 52 m) := rfl

/-- A change of sign flips the leading bit. -/
theorem toNat_pack_neg (h : b.toNat / 2 ^ 52 % 2 ^ 11 ≠ 2047) :
    (UnpackedFloat.pack Format.binary64 (UnpackedFloat.unpack Format.binary64 b).neg).toNat
      = (b.toNat + 2 ^ 63) % 2 ^ 64 := by
  have hb := b.isLt
  have he := toNat_unpackExponent b
  have hm := toNat_unpackMantissa b
  have hflip := toNat_neg_unpackSign b
  obtain ⟨s, hs⟩ : ∃ s, s = Sign.ofBitVec (@unpackSign Format.binary64 b) := ⟨_, rfl⟩
  obtain ⟨e, hee⟩ : ∃ e, e = @unpackExponent Format.binary64 b := ⟨_, rfl⟩
  obtain ⟨m, hmm⟩ : ∃ m, m = @unpackMantissa Format.binary64 b := ⟨_, rfl⟩
  rw [← hee] at he
  rw [← hmm] at hm
  rw [← hs] at hflip
  have hmlt : m.toNat < 2 ^ 52 := m.isLt
  have hne : e ≠ -1#11 := by
    intro hz
    rw [hz] at he
    exact h he.symm
  -- zero, a subnormal and a normal double: each is packed as it was, with the other sign
  rcases unpack_cases b hs hee hmm hne with ⟨rfl, rfl, hunpack⟩ | ⟨rfl, hmzero, hpos, hunpack⟩ |
    ⟨hzero, hpos, hunpack⟩
  · have he0 : b.toNat / 2 ^ 52 % 2 ^ 11 = 0 := he.symm
    have hm0 : b.toNat % 2 ^ 52 = 0 := hm.symm
    rw [hunpack]
    show (packComponents Format.binary64 (-s) 0 0).toNat = _
    rw [toNat_packComponents, hflip]
    show _ + 0 * 2 ^ 52 + 0 = _
    omega
  · have he0 : b.toNat / 2 ^ 52 % 2 ^ 11 = 0 := he.symm
    have hlog : ¬ m.toNat.log2 + 1 = 53 := by
      have := (Nat.log2_lt (k := 52) (Nat.ne_of_gt hpos)).mpr hmlt
      omega
    rw [hunpack, pack_neg_finite, if_neg (by decide), if_neg hlog, toNat_packComponents, hflip]
    show _ + 0 * 2 ^ 52 + m.toNat % 2 ^ 52 = _
    omega
  · -- the leading bit of the coefficient is not stored
    have hmant : (1#1 ++ m).toNat = 2 ^ 52 + m.toNat := by
      rw [BitVec.toNat_append, Nat.shiftLeft_eq]
      exact (Nat.two_pow_add_eq_or_of_lt m.isLt 1).symm
    have hlog : (1#1 ++ m).toNat.log2 + 1 = 53 := by
      rw [hmant, Nat.log2_eq_iff (n := 2 ^ 52 + m.toNat) (k := 52) (by omega) |>.mpr (by omega)]
    have hexp : ∀ bias bits : ℤ, ((e.toNat : ℤ) - (bias + bits) + bias + bits).toNat = e.toNat := by
      omega
    rw [hunpack, pack_neg_finite, hexp, if_neg (by omega), if_pos hlog, toNat_packComponents, hflip,
      hmant]
    show _ + e.toNat % 2 ^ 11 * 2 ^ 52 + (2 ^ 52 + m.toNat) % 2 ^ 52 = _
    omega

end Unpacked

/-- What the bits of a finite double are made of. -/
theorem parts_finite {x : Float} {negative : Bool} {mag : Magnitude}
    (h : parts x = .finite negative mag) :
    negative = signBit x ∧ code x % 2 ^ 63 = 2 ^ 52 * (mag.exp + 1074).toNat + mag.coeff ∧
      IsDouble mag.coeff mag.exp := by
  obtain ⟨c, e⟩ := mag
  rw [parts] at h
  simp only [biased_eq, fraction_eq, Nat.pow_eq] at h
  have hlt : code x / 2 ^ 52 % 2 ^ 11 < 2048 := Nat.mod_lt _ (by decide)
  show negative = signBit x ∧ code x % 2 ^ 63 = 2 ^ 52 * (e + 1074).toNat + c ∧ IsDouble c e
  split at h
  · split at h <;> cases h
  · split at h
    · injection h with hneg hmag
      injection hmag with hc he
      exact ⟨hneg.symm, by omega, ⟨by omega, by omega, by omega, .inr he.symm⟩⟩
    · injection h with hneg hmag
      injection hmag with hc he
      exact ⟨hneg.symm, by omega, ⟨by omega, by omega, by omega, .inl (by omega)⟩⟩

/-- The exponent of an infinity and of a NaN has all bits set. -/
theorem isFinite_iff {x : Float} : isFinite x = true ↔ code x / 2 ^ 52 % 2 ^ 11 ≠ 2047 := by
  rw [isFinite, parts]
  simp only [biased_eq, fraction_eq]
  generalize code x / 2 ^ 52 % 2 ^ 11 = b
  generalize code x % 2 ^ 52 = f
  by_cases hb : b = 2047
  · rw [if_pos hb]
    by_cases hf : f = 0 <;> simp [hf, hb]
  · rw [if_neg hb]
    by_cases hz : b = 0 <;> simp [hz, hb]

theorem biased_eq_of_not_isFinite {x : Float} (h : isFinite x = false) :
    code x / 2 ^ 52 % 2 ^ 11 = 2047 := by
  by_contra hb
  rw [isFinite_iff.mpr hb] at h
  cases h

/-- A change of sign keeps the magnitude. -/
theorem code_neg {x : Float} (h : isFinite x = true) : code (-x) = (code x + 2 ^ 63) % 2 ^ 64 :=
  toNat_pack_neg _ (isFinite_iff.mp h)

theorem neg_neg_of_isFinite {x : Float} (h : isFinite x = true) : - -x = x := by
  have hfinite : isFinite (-x) = true := by
    rw [isFinite_iff] at h ⊢
    rw [code_neg (isFinite_iff.mpr h)]
    omega
  refine code_inj ?_
  have := code_lt x
  rw [code_neg hfinite, code_neg h]
  omega

/-- There is one NaN. -/
theorem parts_eq_nan {x y : Float} (hx : parts x = .nan) (hy : parts y = .nan) : x = y := by
  have hcode : ∀ z : Float, parts z = .nan →
      z.toBits.toBitVec = packedNaN Format.binary64 := by
    intro z hz
    have hb := biased_eq_of_not_isFinite (x := z) (by rw [isFinite, hz])
    rw [parts] at hz
    simp only [biased_eq, fraction_eq] at hz
    have hf : code z % 2 ^ 52 ≠ 0 := by
      intro hf
      rw [if_pos hb, if_pos hf] at hz
      cases hz
    refine z.toModel.valid.eq_packedNaN ?_ ?_
    · refine BitVec.eq_of_toNat_eq ?_
      exact (toNat_unpackExponent z.toBits.toBitVec).trans hb
    · intro hm
      have := toNat_unpackMantissa z.toBits.toBitVec
      rw [show @unpackMantissa Format.binary64 z.toBits.toBitVec = 0#52 from hm] at this
      exact hf this.symm
  refine code_inj ?_
  show x.toBits.toBitVec.toNat = y.toBits.toBitVec.toNat
  rw [hcode x hx, hcode y hy]

/-- What the bits of an infinity are. -/
theorem code_of_infinite {x : Float} {negative : Bool} (h : parts x = .infinite negative) :
    code x = (if negative then 2 ^ 63 else 0) + infinityCode := by
  have hx := code_lt x
  have hb := biased_eq_of_not_isFinite (x := x) (by rw [isFinite, h])
  rw [parts] at h
  simp only [biased_eq, fraction_eq] at h
  rw [if_pos hb] at h
  by_cases hf : code x % 2 ^ 52 = 0
  · rw [if_pos hf] at h
    injection h with h
    rw [signBit_eq] at h
    rw [← h, infinityCode]
    by_cases hs : 2 ^ 63 ≤ code x
    · rw [if_pos (decide_eq_true hs)]
      omega
    · rw [if_neg (by simpa using hs)]
      omega
  · rw [if_neg hf] at h
    cases h

/-- A finite double without its sign. -/
def magnitude (x : Float) : Float := if signBit x then -x else x

/-- The double that has a coefficient and an exponent. -/
theorem magnitude_eq {x : Float} {negative : Bool} {mag : Magnitude}
    (h : parts x = .finite negative mag) :
    ∃ hlt, magnitude x = ofCode (2 ^ 52 * (mag.exp + 1074).toNat + mag.coeff) hlt := by
  obtain ⟨-, hcode, hd⟩ := parts_finite h
  have hlt : 2 ^ 52 * (mag.exp + 1074).toNat + mag.coeff < infinityCode := by
    have := hd.lt
    have := hd.ge_min
    have := hd.le_max
    rw [infinityCode]
    rcases hd.normal with hn | hn <;> omega
  refine ⟨hlt, code_inj ?_⟩
  have hx := code_lt x
  rw [code_ofCode, magnitude, signBit_eq]
  by_cases hs : 2 ^ 63 ≤ code x
  · rw [if_pos (decide_eq_true hs), code_neg (by rw [isFinite, h])]
    omega
  · rw [if_neg (by simpa using hs)]
    omega

/-- Without its sign a finite double keeps its coefficient and exponent. -/
theorem parts_magnitude {x : Float} {negative : Bool} {mag : Magnitude}
    (h : parts x = .finite negative mag) : parts (magnitude x) = .finite false mag := by
  obtain ⟨hlt, hcode⟩ := magnitude_eq h
  have hmod : code (magnitude x) = code x % 2 ^ 63 := by
    rw [hcode, code_ofCode, (parts_finite h).2.1]
  have hsign : signBit (magnitude x) = false := by
    rw [signBit_eq, hmod, decide_eq_false_iff_not]
    omega
  have hbiased : code (magnitude x) / 2 ^ 52 % 2 ^ 11 = code x / 2 ^ 52 % 2 ^ 11 := by omega
  have hfraction : code (magnitude x) % 2 ^ 52 = code x % 2 ^ 52 := by omega
  rw [parts] at h ⊢
  simp only [biased_eq, fraction_eq, hbiased, hfraction, hsign] at h ⊢
  split at h
  · split at h <;> cases h
  · split at h
    · next hz =>
      injection h with hneg hmag
      rw [if_neg (by omega), if_pos hz, hmag]
    · next hb hz =>
      injection h with hneg hmag
      rw [if_neg hb, if_neg hz, hmag]

end FieldLang.Decimal
