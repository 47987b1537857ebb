/-
The texts of numbers.

* `Literal` : a text that is read as one number;
* `literal_positional` : digits are read as the number that they stand for;
* `literal_decimalText` : the digits of a finite number are read as the number without its sign.
-/
import FieldLang.Proofs.Decimal.Digits
import FieldLang.Proofs.Decimal.Reading
import FieldLang.Proofs.Decimal.Shortest
import FieldLang.Proofs.Loops.Inert
import FieldLang.Proofs.Syntax.Lexing
import FieldLang.Writing.Canonical

namespace FieldLang.Canonical

open Loops Decimal

/-- A text that begins with a digit and is read as one number. -/
structure Literal (value : Float) (t : List Char) : Prop where
  lexemes : lexemes t = some [.number value]
  inert : Inert t
  digit : ∃ d rest, t = d :: rest ∧ d.isDigit = true

section Digits

variable {before after : List Char}

theorem ne_point_of_isDigit {c : Char} (h : c.isDigit = true) : c ≠ '.' := by
  rintro rfl
  exact absurd h (by decide)

theorem not_mem_of_digits {c : Char} (hd : ∀ c ∈ before, c.isDigit = true) (hc : c.isDigit = false) :
    c ∉ before := fun hm => by
  rw [hd c hm] at hc
  cases hc

theorem head_of_digits (hne : before ≠ []) (hd : ∀ c ∈ before, c.isDigit = true) (rest : List Char) :
    ∃ d more, before ++ rest = d :: more ∧ d.isDigit = true := by
  obtain ⟨d, more, rfl⟩ := List.exists_cons_of_ne_nil hne
  exact ⟨d, more ++ rest, rfl, hd d (List.mem_cons_self ..)⟩

theorem takeWhile_digits (hd : ∀ c ∈ before, c.isDigit = true) :
    (before.takeWhile (· != '.')) = before :=
  List.takeWhile_eq_self_iff.mpr fun c hc => by simpa using ne_point_of_isDigit (hd c hc)

/-- A row of digits. -/
theorem Literal.of_digits (hne : before ≠ []) (hd : ∀ c ∈ before, c.isDigit = true) :
    Literal (ofScientific (ofDigits before) 0) before := by
  have hpoint : '.' ∉ before := not_mem_of_digits hd (by decide)
  have hread : readLiteral before = ofScientific (ofDigits before) 0 := by
    have hdrop : before.dropWhile (· != '.') = [] := by
      rw [List.dropWhile_eq_nil_iff]
      intro c hc
      simpa using ne_point_of_isDigit (hd c hc)
    rw [readLiteral, takeWhile_digits hd, hdrop]
    simp
  refine ⟨?_, .of_not_mem (not_mem_of_digits hd (by decide)) hpoint, ?_⟩
  · rw [← hread]
    refine lexemes_number hne ?_ (fun c hc => ?_) ?_
    · rintro rfl
      exact hpoint (by simp)
    · rw [isNumberChar, hd c hc, Bool.true_or]
    · rw [List.count_eq_zero_of_not_mem hpoint]
      omega
  · simpa using head_of_digits hne hd []

/-- Two rows of digits with a point between them. -/
theorem Literal.of_point (hne : before ≠ []) (hb : ∀ c ∈ before, c.isDigit = true)
    (ha : ∀ c ∈ after, c.isDigit = true) :
    Literal (ofScientific (ofDigits (before ++ after)) (-(after.length : ℤ)))
      (before ++ '.' :: after) := by
  have hpb : '.' ∉ before := not_mem_of_digits hb (by decide)
  have hpa : '.' ∉ after := not_mem_of_digits ha (by decide)
  have hread : readLiteral (before ++ '.' :: after)
      = ofScientific (ofDigits (before ++ after)) (-(after.length : ℤ)) := by
    have hall : ∀ c ∈ before, (c != '.') = true := fun c hc => by
      simpa using ne_point_of_isDigit (hb c hc)
    rw [readLiteral, List.takeWhile_append_of_pos hall, List.dropWhile_append_of_pos hall]
    simp
  refine ⟨?_, ⟨?_, ?_⟩, head_of_digits hne hb _⟩
  · rw [← hread]
    refine lexemes_number (by simp) ?_ (fun c hc => ?_) ?_
    · intro h
      obtain ⟨d, more, rfl⟩ := List.exists_cons_of_ne_nil hne
      simp at h
    · rw [isNumberChar]
      rcases List.mem_append.mp hc with hc | hc
      · rw [hb c hc, Bool.true_or]
      · rcases List.mem_cons.mp hc with rfl | hc
        · rfl
        · rw [ha c hc, Bool.true_or]
    · rw [List.count_append, List.count_cons_self, List.count_eq_zero_of_not_mem hpb,
        List.count_eq_zero_of_not_mem hpa]
  · have h1 := not_mem_of_digits (c := '@') hb (by decide)
    have h2 := not_mem_of_digits (c := '@') ha (by decide)
    simp [h1, h2]
  · -- the only point is the one behind the first row
    intro u v h
    have hu : u = before := by
      rcases List.append_eq_append_iff.mp h with ⟨c, rfl, hc⟩ | ⟨c, rfl, hc⟩
      · cases c with
        | nil => simp
        | cons p c =>
          exfalso
          obtain ⟨rfl, rfl⟩ := List.cons.inj hc
          exact hpa (by simp)
      · cases c with
        | nil => simp
        | cons p c =>
          exfalso
          obtain ⟨rfl, -⟩ := List.cons.inj hc
          exact hpb (by simp)
    subst hu
    exact ⟨u.getLast hne, List.getLast?_eq_some_getLast hne, hb _ (List.getLast_mem hne)⟩

end Digits

/-! ### Digits of numbers -/

/-- Digits are read as the number that they stand for. -/
theorem literal_positional (d : Digits) :
    ∃ (n : ℕ) (k : ℤ), Literal (ofScientific n k) d.positional ∧ (n : ℚ) * 10 ^ k = d.value := by
  have hdigit : ∀ c ∈ natText d.coeff, c.isDigit = true := fun c => isDigit_of_mem_natText
  have hzero (k : ℕ) : ∀ c ∈ List.replicate k '0', c.isDigit = true := fun c hc => by
    rw [List.eq_of_mem_replicate hc]
    decide
  have hlead : d.leading = d.exp + ((natText d.coeff).length : ℤ) - 1 := rfl
  rw [Digits.positional]
  -- zeros behind the digits, a point among them, or zeros before them
  split
  · next hexp =>
    refine ⟨_, _, .of_digits (by simp [natText_ne_nil]) fun c hc => ?_, ?_⟩
    · rcases List.mem_append.mp hc with hc | hc
      · exact hdigit c hc
      · exact hzero _ c hc
    · obtain ⟨k, hk⟩ : ∃ k : ℕ, d.exp = k := ⟨d.exp.toNat, by omega⟩
      rw [ofDigits_append_zeros, ofDigits_natText, Digits.value, hk]
      simp
  split
  · next hexp hpoint =>
    refine ⟨_, _, .of_point ?_ (fun c hc => hdigit c (List.mem_of_mem_take hc))
      (fun c hc => hdigit c (List.mem_of_mem_drop hc)), ?_⟩
    · rw [Ne, List.take_eq_nil_iff]
      simp [natText_ne_nil]
    · rw [List.take_append_drop, ofDigits_natText, Digits.value, List.length_drop]
      congr 2
      omega
  · next hexp hpoint =>
    refine ⟨_, _, @Literal.of_point ['0'] _ (by simp) (by simp) fun c hc => ?_, ?_⟩
    · rcases List.mem_append.mp hc with hc | hc
      · exact hzero _ c hc
      · exact hdigit c hc
    · have hone : ofDigits (['0'] ++ (List.replicate (-d.leading - 1).toNat '0' ++ natText d.coeff))
          = d.coeff := by
        refine Eq.trans ?_ (ofDigits_natText d.coeff)
        exact ofDigits_zeros_append (natText d.coeff) ((-d.leading - 1).toNat + 1)
      rw [hone, Digits.value, List.length_append, List.length_replicate]
      congr 2
      push_cast
      omega

/-- The digits of a finite number are read as its magnitude. -/
theorem literal_decimalText {value : Float} (h : Decimal.isFinite value = true) :
    Literal (Decimal.magnitude value) (decimalText value).toList := by
  obtain ⟨negative, mag, hparts⟩ : ∃ negative mag, parts value = .finite negative mag := by
    rw [isFinite] at h
    split at h
    · next negative mag hp => exact ⟨negative, mag, hp⟩
    · cases h
  obtain ⟨hlt, hcode⟩ := magnitude_eq hparts
  obtain ⟨-, -, hd⟩ := parts_finite hparts
  rw [decimalText, hparts, hcode]
  simp only
  -- a short whole number is written out, any other one by the fewest digits that tell it
  split
  · next hshort =>
    have hwhole : mag.isWhole = true := by
      simp only [Writing.isShortWhole, Bool.and_eq_true] at hshort
      exact hshort.1
    have hv : RoundsTo (mag.whole * 10 ^ (0 : ℤ)) mag.coeff mag.exp := by
      rw [zpow_zero, mul_one, whole_value hwhole]
      exact mag.roundsTo_value
    have hl := Literal.of_digits (natText_ne_nil mag.whole) fun c => isDigit_of_mem_natText
    rw [ofDigits_natText, ofScientific_eq hv hd hlt] at hl
    rw [String.toList_ofList]
    exact hl
  · obtain ⟨n, k, hl, hvalue⟩ := literal_positional (shortest mag)
    have hv : RoundsTo (n * 10 ^ k) mag.coeff mag.exp := hvalue ▸ shortest_roundsTo mag
    rw [ofScientific_eq hv hd hlt] at hl
    rw [String.toList_ofList]
    exact hl

end FieldLang.Canonical
