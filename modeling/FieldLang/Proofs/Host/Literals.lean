/-
The literals of generated code.

* `lexes_natText` : a whole number without a point is one token;
* `Numeral`, `lexes_numeral` : so are digits with a point or an exponent;
* `numeral_literal` : the shortest digits of a finite number are such a text;
* `lexes_decimalText` : what is written for a finite number is read as its magnitude.
-/
import FieldLang.Proofs.Host.Lexing
import FieldLang.Proofs.Host.Numbers
import FieldLang.Proofs.Host.Phrases
import FieldLang.Proofs.Writing.Literals

namespace FieldLang.Host

open Decimal Canonical

/-! ### Where a literal ends -/

section End

variable {c last : Char} {u : List Char}

theorem literalEnd_cons (h : c.isAlphanum = true ∨ c = '.') (last : Char) (u : List Char) :
    literalEnd last (c :: u) = c :: literalEnd c u := by
  rw [literalEnd, if_pos]
  rcases h with h | rfl <;> simp [*]

theorem literalEnd_self (h : ∀ c ∈ u, c.isAlphanum = true ∨ c = '.') (last : Char) :
    literalEnd last u = u := by
  induction u generalizing last with
  | nil => rfl
  | cons c u ih =>
    rw [literalEnd_cons (h c (List.mem_cons_self ..)),
      ih fun d hd => h d (List.mem_cons_of_mem _ hd)]

/-- A literal goes on behind the sign of its exponent. -/
theorem literalEnd_exponent {sign : Char} (hsign : sign = '-' ∨ sign = '+') {mantissa ds : List Char}
    (hm : ∀ c ∈ mantissa, c.isAlphanum = true ∨ c = '.') (hds : ∀ c ∈ ds, c.isDigit = true) :
    literalEnd last (mantissa ++ 'e' :: sign :: ds) = mantissa ++ 'e' :: sign :: ds := by
  induction mantissa generalizing last with
  | nil =>
    have hrest : literalEnd 'e' (sign :: ds) = sign :: ds := by
      have hends := literalEnd_self (fun c hc => .inl (isAlphanum_of_isDigit (hds c hc))) sign
      rcases hsign with rfl | rfl
      · rw [literalEnd, if_neg (by decide), if_pos (by decide), hends]
      · rw [literalEnd, if_neg (by decide), if_pos (by decide), hends]
    rw [List.nil_append, literalEnd_cons (.inl (by decide)), hrest]
  | cons c mantissa ih =>
    rw [List.cons_append, literalEnd_cons (hm c (List.mem_cons_self ..)),
      ih fun d hd => hm d (List.mem_cons_of_mem _ hd)]

end End

/-! ### Whole numbers -/

/-- No zero stands before other digits. -/
theorem head?_natText {n : ℕ} (hn : n ≠ 0) : (natText n).head? ≠ some '0' := by
  induction n using Nat.strongRecOn with
  | ind n ih =>
    by_cases hlt : n < 10
    · have hdigit : ∀ n < 10, n ≠ 0 → n.digitChar ≠ '0' := by decide
      rw [natText, Nat.toDigits_of_lt_base hlt]
      exact fun h => hdigit n hlt hn (Option.some.inj h)
    · have hle : 10 ≤ n := Nat.not_lt.mp hlt
      rw [natText, Nat.toDigits_of_base_le (by decide) hle, List.head?_append_of_ne_nil]
      · exact ih (n / 10) (by omega) (by omega)
      · exact natText_ne_nil (n / 10)

theorem scanToken_literal {c : Char} {u : List Char} {t : HostToken} (hc : c.isDigit = true)
    (hend : literalEnd c u = u) (htoken : literalToken (c :: u) = some t) :
    scanToken c u = some (t, u.length) := by
  have hstart : Text.startsName c = false :=
    ascii_forall (P := fun c => c.isDigit = true → Text.startsName c = false) (by decide)
      (toNat_lt_of_isAlphanum (.inl (isAlphanum_of_isDigit hc))) hc
  simp [scanToken, hstart, hc, hend, htoken]

/-- A whole number. -/
theorem lexes_natText (d n : ℕ) : Lexes d (natText n) [.whole n] d := by
  have hdigit : ∀ c ∈ natText n, c.isDigit = true := fun c => isDigit_of_mem_natText
  obtain ⟨c, u, hu⟩ := List.exists_cons_of_ne_nil (natText_ne_nil n)
  have hc : c.isDigit = true := hdigit c (by rw [hu]; exact List.mem_cons_self ..)
  have htoken : literalToken (c :: u) = some (.whole n) := by
    rw [← hu, literalToken, if_pos (List.all_eq_true.mpr hdigit), wholeToken, if_neg,
      ofDigits_natText]
    rintro ⟨hzero, hany⟩
    by_cases hn : n = 0
    · subst hn
      exact absurd hany (by decide)
    · exact head?_natText hn hzero
  have hend : literalEnd c u = u := by
    refine literalEnd_self (fun e he => .inl (isAlphanum_of_isDigit (hdigit e ?_))) c
    rw [hu]
    exact List.mem_cons_of_mem _ he
  rw [hu]
  refine lexes_token ?_ (scanToken_literal hc hend htoken)
  constructor <;> rintro rfl <;> exact absurd hc (by decide)

/-! ### Numerals -/

/-- A text of digits with a point or an exponent that stands for a number. -/
structure Numeral (x : Float) (t : List Char) : Prop where
  digit : ∃ c rest, t = c :: rest ∧ c.isDigit = true
  chars : ∀ c ∈ t, c.isDigit = true ∨ c ∈ ['.', 'e', '-', '+']
  closed : ∀ last, literalEnd last t = t
  not_whole : ∃ c ∈ t, c.isDigit = false
  read : readUnsigned? t = some x

/-- What a numeral is read as when a sign could stand in front of it. -/
theorem Numeral.asciiNumber {x : Float} {t : List Char} (h : Numeral x t) :
    asciiNumber? t = some x := by
  have hclass : ∀ c : Char, c.isDigit = true ∨ c ∈ ['.', 'e', '-', '+'] → c.toLower = c := by
    rintro c (hc | hc)
    · have hascii := toNat_lt_of_isAlphanum (.inl (isAlphanum_of_isDigit hc))
      exact ascii_forall (P := fun c => c.isDigit = true → c.toLower = c) (by decide) hascii hc
    · have hmarks : ∀ c ∈ ['.', 'e', '-', '+'], c.toLower = c := by decide
      exact hmarks c hc
  have hlower : t.map Char.toLower = t :=
    (List.map_congr_left fun c hc => hclass c (h.chars c hc)).trans (List.map_id t)
  obtain ⟨c, rest, hrest, hc⟩ := h.digit
  have hfirst : c ≠ '-' ∧ c ≠ '+' ∧ c ≠ 'i' ∧ c ≠ 'n' := by
    refine ⟨?_, ?_, ?_, ?_⟩ <;> rintro rfl <;> exact absurd hc (by decide)
  -- it begins with a digit, so it has no sign and is no word
  have hsign : splitSign t = (false, t) := by
    rw [hrest, splitSign]
    · exact fun rest heq => hfirst.1 (List.cons.inj heq).1
    · exact fun rest heq => hfirst.2.1 (List.cons.inj heq).1
  have hword : ∀ first word, first ≠ c → (t == first :: word) = false := by
    rintro first word hne
    rw [hrest, List.cons_beq_cons, beq_false_of_ne (Ne.symm hne), Bool.false_and]
  rw [asciiNumber?, hlower, hsign]
  simp only [hword 'i' _ (Ne.symm hfirst.2.2.1), hword 'n' _ (Ne.symm hfirst.2.2.2), Bool.or_self,
    Bool.false_eq_true, if_false, h.read]
  rfl

theorem lexes_numeral {x : Float} {t : List Char} (h : Numeral x t) (d : ℕ) :
    Lexes d t [.real x] d := by
  obtain ⟨c, u, rfl, hc⟩ := h.digit
  have hend : literalEnd c u = u := by
    have := h.closed ' '
    rw [literalEnd_cons (.inl (isAlphanum_of_isDigit hc))] at this
    exact (List.cons.inj this).2
  have htoken : literalToken (c :: u) = some (.real x) := by
    obtain ⟨e, he, hdigit⟩ := h.not_whole
    rw [literalToken, if_neg, if_pos, h.asciiNumber]
    · rfl
    · refine List.all_eq_true.mpr fun e he => ?_
      rcases h.chars e he with hdigit | hmark
      · simp [hdigit]
      · simp only [List.mem_cons, List.not_mem_nil, or_false] at hmark
        rcases hmark with rfl | rfl | rfl | rfl <;> decide
    · intro hall
      rw [List.all_eq_true.mp hall e he] at hdigit
      cases hdigit
  refine lexes_token ?_ (scanToken_literal hc hend htoken)
  constructor <;> rintro rfl <;> exact absurd hc (by decide)

theorem ungroup?_digits {ds : List Char} (h : ∀ c ∈ ds, c.isDigit = true) :
    ungroup? ds = some ds := by
  induction ds with
  | nil => rfl
  | cons c ds ih =>
    have hc := h c (List.mem_cons_self ..)
    have hds : ∀ e ∈ ds, e.isDigit = true := fun e he => h e (List.mem_cons_of_mem _ he)
    cases ds with
    | nil => simp [ungroup?, hc]
    | cons e ds =>
      rw [ungroup?, if_pos hc, ih hds]
      · rfl
      · simp
      · rintro e' rest heq
        obtain ⟨rfl, -⟩ := List.cons.inj heq
        exact absurd (hds '_' (List.mem_cons_self ..)) (by decide)

/-- The parts of an exponent. -/
theorem exponentText_eq (k : ℤ) : ∃ ds, exponentText k = 'e' :: (if k < 0 then '-' else '+') :: ds ∧
    (∀ c ∈ ds, c.isDigit = true) ∧ ds ≠ [] ∧ ofDigits ds = k.natAbs := by
  refine ⟨_, rfl, ?_⟩
  split
  · refine ⟨fun c hc => ?_, by simp, ?_⟩
    · rcases List.mem_cons.mp hc with rfl | hc
      · decide
      · exact isDigit_of_mem_natText hc
    · exact (ofDigits_zeros_append (natText k.natAbs) 1).trans (ofDigits_natText k.natAbs)
  · exact ⟨fun c => isDigit_of_mem_natText, natText_ne_nil _, ofDigits_natText _⟩

theorem readExponent?_exponentText (k : ℤ) : readExponent? (exponentText k) = some k := by
  obtain ⟨ds, heq, hdigit, hne, hvalue⟩ := exponentText_eq k
  have hempty : ds.isEmpty = false := by simpa using hne
  rw [heq]
  by_cases hk : k < 0
  · have hread : splitSign ('-' :: ds) = (true, ds) := rfl
    simp only [if_pos hk, readExponent?, hread, ungroup?_digits hdigit, bind, Option.bind, hempty,
      Bool.false_eq_true, if_false, hvalue, if_true, Option.some.injEq]
    omega
  · have hread : splitSign ('+' :: ds) = (false, ds) := rfl
    simp only [if_neg hk, readExponent?, hread, ungroup?_digits hdigit, bind, Option.bind, hempty,
      Bool.false_eq_true, if_false, hvalue, Option.some.injEq]
    omega

section Numerals

variable {before after point ex : List Char} {k : ℤ}

/-- Digits, perhaps with others behind a point, and perhaps an exponent. -/
theorem readUnsigned?_eq (hne : before ≠ []) (hb : ∀ c ∈ before, c.isDigit = true)
    (ha : ∀ c ∈ after, c.isDigit = true) (hpoint : point = '.' :: after ∨ point = [] ∧ after = [])
    (hex : ex = [] ∨ ∃ rest, ex = 'e' :: rest) (hk : readExponent? ex = some k) :
    readUnsigned? (before ++ point ++ ex) =
      some (ofScientific (ofDigits (before ++ after)) (k - after.length)) := by
  have hnot {c : Char} (hc : c.isDigit = false) {ds : List Char} (hds : ∀ c ∈ ds, c.isDigit = true) :
      ∀ e ∈ ds, (e != c) = true := by
    intro e he
    rw [bne_iff_ne]
    rintro rfl
    rw [hds e he] at hc
    cases hc
  -- the text is cut at its `e`, and then at its point
  have hmantissa : ∀ e ∈ before ++ point, (e != 'e') = true := by
    intro e he
    rcases List.mem_append.mp he with he | he
    · exact hnot (by decide) hb e he
    · rcases hpoint with rfl | ⟨rfl, -⟩
      · rcases List.mem_cons.mp he with rfl | he
        · decide
        · exact hnot (by decide) ha e he
      · cases he
  have htake : (before ++ point ++ ex).takeWhile (· != 'e') = before ++ point := by
    rw [List.takeWhile_append_of_pos hmantissa]
    rcases hex with rfl | ⟨rest, rfl⟩ <;> simp
  have hdrop : (before ++ point ++ ex).dropWhile (· != 'e') = ex := by
    rw [List.dropWhile_append_of_pos hmantissa]
    rcases hex with rfl | ⟨rest, rfl⟩ <;> simp
  have hbefore : (before ++ point).takeWhile (· != '.') = before := by
    rw [List.takeWhile_append_of_pos (hnot (by decide) hb)]
    rcases hpoint with rfl | ⟨rfl, -⟩ <;> simp
  have hafter : ((before ++ point).dropWhile (· != '.')).drop 1 = after := by
    rw [List.dropWhile_append_of_pos (hnot (by decide) hb)]
    rcases hpoint with rfl | ⟨rfl, rfl⟩ <;> simp
  have hempty : before.isEmpty = false := by simpa using hne
  rw [readUnsigned?, htake, hdrop]
  simp only [hk, hbefore, hafter, ungroup?_digits hb, ungroup?_digits ha, bind, Option.bind, hempty,
    Bool.false_and, Bool.false_eq_true, if_false]

/-- A point or an exponent makes digits a numeral. -/
theorem numeral_of_parts (hne : before ≠ []) (hb : ∀ c ∈ before, c.isDigit = true)
    (ha : ∀ c ∈ after, c.isDigit = true) (hpoint : point = '.' :: after ∨ point = [] ∧ after = [])
    (hex : ex = [] ∧ k = 0 ∨ ex = exponentText k) (hmark : point ≠ [] ∨ ex ≠ []) :
    Numeral (ofScientific (ofDigits (before ++ after)) (k - after.length))
      (before ++ point ++ ex) := by
  obtain ⟨ds, hexponent, hds, -, -⟩ := exponentText_eq k
  have hm : ∀ c ∈ before ++ point, c.isDigit = true ∨ c = '.' := by
    intro c hc
    rcases List.mem_append.mp hc with hc | hc
    · exact .inl (hb c hc)
    · rcases hpoint with rfl | ⟨rfl, -⟩
      · rcases List.mem_cons.mp hc with rfl | hc
        · exact .inr rfl
        · exact .inl (ha c hc)
      · cases hc
  have hm' : ∀ c ∈ before ++ point, c.isAlphanum = true ∨ c = '.' :=
    fun c hc => (hm c hc).imp_left isAlphanum_of_isDigit
  have hread : readExponent? ex = some k := by
    rcases hex with ⟨rfl, rfl⟩ | rfl
    · rfl
    · exact readExponent?_exponentText k
  -- a digit is in front, other characters belong to literals, the whole is read, and a mark makes
  -- it no whole number
  refine ⟨?_, fun c hc => ?_, fun last => ?_, ?_, readUnsigned?_eq hne hb ha hpoint ?_ hread⟩
  · obtain ⟨c, rest, rfl⟩ := List.exists_cons_of_ne_nil hne
    exact ⟨c, _, rfl, hb c (List.mem_cons_self ..)⟩
  · rcases List.mem_append.mp hc with hc | hc
    · exact (hm c hc).imp_right fun h => by simp [h]
    · rcases hex with ⟨rfl, -⟩ | rfl
      · cases hc
      · rw [hexponent] at hc
        simp only [List.mem_cons] at hc
        rcases hc with rfl | rfl | hc
        · exact .inr (by decide)
        · refine .inr ?_
          split <;> decide
        · exact .inl (hds c hc)
  · rcases hex with ⟨rfl, -⟩ | rfl
    · rw [List.append_nil]
      exact literalEnd_self hm' last
    · rw [hexponent]
      refine literalEnd_exponent ?_ hm' hds
      split <;> simp
  · rcases hmark with hpoint' | hex'
    · rcases hpoint with rfl | ⟨rfl, -⟩
      · exact ⟨'.', by simp, by decide⟩
      · exact absurd rfl hpoint'
    · rcases hex with ⟨rfl, -⟩ | rfl
      · exact absurd rfl hex'
      · exact ⟨'e', by simp [hexponent], by decide⟩
  · rcases hex with ⟨rfl, -⟩ | rfl
    · exact .inl rfl
    · exact .inr ⟨_, hexponent⟩

end Numerals

/-! ### Numbers in programs -/

theorem isDigit_of_mem_replicate {k : ℕ} {c : Char} (h : c ∈ List.replicate k '0') :
    c.isDigit = true := by
  rw [List.eq_of_mem_replicate h]
  decide

/-- Digits with a point behind or among them. -/
theorem numeral_positional (d : Digits) : ∃ (n : ℕ) (k : ℤ),
    Numeral (ofScientific n k)
      (if 0 ≤ d.exp then d.positional ++ ['.', '0'] else d.positional) ∧
    (n : ℚ) * 10 ^ k = d.value := by
  have hdigit : ∀ c ∈ natText d.coeff, c.isDigit = true := fun c => isDigit_of_mem_natText
  have hlead : d.leading = d.exp + ((natText d.coeff).length : ℤ) - 1 := rfl
  -- there is no exponent, so only the digits before and behind the point are to be told
  have hparts : ∀ before after : List Char, before ≠ [] → (∀ c ∈ before, c.isDigit = true) →
      (∀ c ∈ after, c.isDigit = true) →
      Numeral (ofScientific (ofDigits (before ++ after)) (0 - after.length))
        (before ++ '.' :: after) := by
    intro before after hne hb ha
    have h := numeral_of_parts (k := 0) hne hb ha (.inl rfl) (.inl ⟨rfl, rfl⟩) (.inl (by simp))
    rwa [List.append_nil] at h
  rw [Digits.positional]
  split
  · next hexp =>
    refine ⟨_, _, hparts (natText d.coeff ++ List.replicate d.exp.toNat '0') ['0']
      (by simp [natText_ne_nil]) (fun c hc => ?_) (by decide), ?_⟩
    · exact (List.mem_append.mp hc).elim (hdigit c) isDigit_of_mem_replicate
    · obtain ⟨k, hk⟩ : ∃ k : ℕ, d.exp = k := ⟨d.exp.toNat, by omega⟩
      rw [show ['0'] = List.replicate 1 '0' from rfl, ofDigits_append_zeros, ofDigits_append_zeros,
        ofDigits_natText, Digits.value, hk]
      simp
  · next hexp =>
    split
    · next hpoint =>
      refine ⟨_, _, hparts _ _ ?_ (fun c hc => hdigit c (List.mem_of_mem_take hc))
        (fun c hc => hdigit c (List.mem_of_mem_drop hc)), ?_⟩
      · rw [Ne, List.take_eq_nil_iff]
        simp [natText_ne_nil]
      · rw [List.take_append_drop, ofDigits_natText, Digits.value, List.length_drop]
        congr 2
        omega
    · next hpoint =>
      refine ⟨_, _, hparts ['0'] (List.replicate (-d.leading - 1).toNat '0' ++ natText d.coeff)
        (by simp) (by decide) (fun c hc => ?_), ?_⟩
      · exact (List.mem_append.mp hc).elim isDigit_of_mem_replicate (hdigit c)
      · have hone : ofDigits (['0'] ++ (List.replicate (-d.leading - 1).toNat '0' ++
            natText d.coeff)) = d.coeff :=
          (ofDigits_zeros_append (natText d.coeff) ((-d.leading - 1).toNat + 1)).trans
            (ofDigits_natText d.coeff)
        rw [hone, Digits.value, List.length_append, List.length_replicate]
        congr 2
        push_cast
        omega

/-- Digits with an exponent behind them. -/
theorem numeral_scientific (d : Digits) : ∃ (n : ℕ) (k : ℤ),
    Numeral (ofScientific n k) d.scientific ∧ (n : ℚ) * 10 ^ k = d.value := by
  have hdigit : ∀ c ∈ natText d.coeff, c.isDigit = true := fun c => isDigit_of_mem_natText
  have hvalue := ofDigits_natText d.coeff
  have hlead : d.leading = d.exp + ((natText d.coeff).length : ℤ) - 1 := rfl
  obtain ⟨ds, hexponent, -⟩ := exponentText_eq d.leading
  have hne : exponentText d.leading ≠ [] := by simp [hexponent]
  rw [Digits.scientific]
  -- a point stands behind the first digit only if there are more
  match hds : natText d.coeff with
  | [] => exact absurd hds (natText_ne_nil d.coeff)
  | [c] =>
    rw [hds] at hdigit hvalue hlead
    have h := @numeral_of_parts [c] [] _ _ d.leading (by simp) hdigit
      (by simp) (.inr ⟨rfl, rfl⟩) (.inr rfl) (.inr hne)
    refine ⟨_, _, h, ?_⟩
    rw [List.append_nil, hvalue, Digits.value]
    congr 2
    simp only [List.length_cons, List.length_nil] at hlead ⊢
    omega
  | c :: e :: rest =>
    rw [hds] at hdigit hvalue hlead
    have h := @numeral_of_parts [c] (e :: rest) _ _ d.leading (by simp)
      (fun x hx => hdigit x (by simp_all)) (fun x hx => hdigit x (List.mem_cons_of_mem _ hx))
      (.inl rfl) (.inr rfl) (.inr hne)
    refine ⟨_, _, h, ?_⟩
    rw [List.singleton_append, hvalue, Digits.value]
    congr 2
    simp only [List.length_cons] at hlead ⊢
    omega

/-- The shortest digits of a number are a numeral for its magnitude. -/
theorem numeral_literal {value : Float} {negative : Bool} {mag : Magnitude}
    (h : parts value = .finite negative mag) :
    Numeral (ofMagnitude mag) (literal (ofMagnitude mag)) := by
  obtain ⟨hlt, hcode⟩ := magnitude_eq h
  obtain ⟨-, -, hd⟩ := parts_finite h
  have hparts : parts (ofMagnitude mag) = .finite false mag := by
    rw [ofMagnitude_eq h]
    exact parts_magnitude h
  have hdigits : ∃ (n : ℕ) (k : ℤ), Numeral (ofScientific n k) (literal (ofMagnitude mag)) ∧
      (n : ℚ) * 10 ^ k = (shortest mag).value := by
    rw [literal, Decimal.signed, hparts]
    simp only [Bool.false_eq_true, if_false]
    split
    · exact numeral_positional _
    · exact numeral_scientific _
  obtain ⟨n, k, hl, hvalue⟩ := hdigits
  have hv : RoundsTo (n * 10 ^ k) mag.coeff mag.exp := hvalue ▸ shortest_roundsTo mag
  rw [ofScientific_eq hv hd hlt, ← hcode, ← ofMagnitude_eq h] at hl
  exact hl

/-- What is written for a finite number is the token of its magnitude. -/
theorem lexes_decimalText {value : Float} {negative : Bool} {mag : Magnitude}
    (h : parts value = .finite negative mag) (d : ℕ) :
    Lexes d (HostWriter.decimalText value).toList [HostWriter.magnitudeToken mag] d := by
  rw [HostWriter.decimalText, h, HostWriter.magnitudeToken]
  simp only
  split
  · rw [String.toList_ofList]
    exact lexes_natText d mag.whole
  · rw [String.toList_ofList]
    exact lexes_numeral (numeral_literal h) d

/-- It begins with a digit. -/
theorem decimalText_digit {value : Float} {negative : Bool} {mag : Magnitude}
    (h : parts value = .finite negative mag) :
    ∃ c rest, (HostWriter.decimalText value).toList = c :: rest ∧ c.isDigit = true := by
  rw [HostWriter.decimalText, h]
  simp only
  split
  · obtain ⟨c, rest, hrest⟩ := List.exists_cons_of_ne_nil (natText_ne_nil mag.whole)
    refine ⟨c, rest, ?_, isDigit_of_mem_natText (hrest ▸ List.mem_cons_self ..)⟩
    rw [String.toList_ofList]
    exact hrest
  · rw [String.toList_ofList]
    exact (numeral_literal h).digit

end FieldLang.Host
