/-
Texts in which every pair of brackets counts.

* `Tight` : a text whose lexemes weigh one less without any pair of its brackets, and lead on to the
  same place;
* `Tight.append`, `Tight.between`, `Tight.brackets`, `Tight.call` : how such texts are put together;
* `Tight.minus_brackets` : brackets behind a sign.

Design notes: a pair is dropped from one of the parts of a text, and the others are left as they are.
Parts meet at separators, which no token crosses. Only a sign touches what it belongs to: without the
brackets behind it, it may become one token with another sign, a step that no operand is in front of.
-/
import FieldLang.Proofs.Writing.Brackets
import FieldLang.Proofs.Writing.Texts
import FieldLang.Proofs.Writing.Weight

namespace FieldLang

open Canonical Layout

/-! ### Brackets and signs among lexemes -/

section Lexemes

variable {t : List Char} {ls : List Lexeme}

/-- A separator that is a token is among the lexemes of a text in which it stands. -/
theorem mem_lexemes_of_mem {c : Char} {l : Lexeme} (h : lexemes t = some ls)
    (hc : isSeparator c = true) (hblank : ¬Text.isBlank c = true)
    (hscan : ∀ rest, scan c rest = .ok (l, 0)) (hmem : c ∈ t) : l ∈ ls := by
  obtain ⟨u, v, rfl⟩ := List.append_of_mem hmem
  rw [lexemes_append (apart_separator hc), lexemes_token hblank (hscan v), List.drop_zero] at h
  cases hu : lexemes u with
  | none => simp [hu] at h
  | some a =>
    cases hv : lexemes v with
    | none => simp [hu, hv] at h
    | some b =>
      simp only [hu, hv, Option.map_some, Option.bind_eq_bind, Option.bind_some, Option.some.injEq] at h
      simp [← h]

theorem scan_lparen (rest : List Char) : scan '(' rest = .ok (.lparen, 0) := by
  cases rest <;> rfl

theorem scan_rparen (rest : List Char) : scan ')' rest = .ok (.rparen, 0) := by
  cases rest <;> rfl

/-- A text has no opening bracket if its lexemes have none. -/
theorem not_mem_lparen (h : lexemes t = some ls) (hls : .lparen ∉ ls) : '(' ∉ t :=
  fun hmem => hls (mem_lexemes_of_mem h (by decide) (by decide) scan_lparen hmem)

theorem not_mem_rparen (h : lexemes t = some ls) (hls : .rparen ∉ ls) : ')' ∉ t :=
  fun hmem => hls (mem_lexemes_of_mem h (by decide) (by decide) scan_rparen hmem)

/-- Only a minus sign is read as one. -/
theorem eq_minus_of_scan {c : Char} {rest : List Char} {n : Nat}
    (h : scan c rest = .ok (.operator .sub, n)) : c = '-' := by
  rw [scan] at h
  split at h
  · next hpair =>
    cases h
    obtain ⟨d, -, hd⟩ := Option.bind_eq_some_iff.mp hpair
    rw [pairLexeme?.eq_def] at hd
    split at hd <;> cases hd
  · split at h
    · next hchar =>
      cases h
      rw [charLexeme?.eq_def] at hchar
      split at hchar <;> first | rfl | cases hchar
    · split at h
      · obtain ⟨l, hl, h⟩ := bind_eq_ok.mp h
        cases h
        exact absurd (numberLexeme_ok hl) (by simp)
      · split at h
        · have hl := (Prod.mk.inj (Except.ok.inj h)).1
          rw [nameLexeme] at hl
          split at hl <;> cases hl
        · cases h

/-- A text that begins with a letter, a digit or a bracket does not begin with a sign. -/
theorem head?_ne_sub {c : Char} {rest : List Char} (h : lexemes (c :: rest) = some ls)
    (hblank : ¬Text.isBlank c = true) (hc : c ≠ '-') : ls.head? ≠ some (.operator .sub) := by
  cases hs : scan c rest with
  | error fault =>
    rw [lexemes_error hblank hs] at h
    cases h
  | ok r =>
    obtain ⟨l, n⟩ := r
    rw [lexemes_token hblank hs] at h
    obtain ⟨more, -, rfl⟩ := Option.map_eq_some_iff.mp h
    rintro ⟨⟩
    exact hc (eq_minus_of_scan hs)

/-- A row that does not begin with a sign leads to the same operand from any place. -/
theorem Spot.run_anywhere {s s₁ : Spot} (h : s₁.run ls = some .operand) (hs₁ : s₁ ≠ .operand)
    (hls : ls.head? ≠ some (.operator .sub)) : s.run ls = some .operand := by
  cases ls with
  | nil => exact absurd (Option.some.inj h) hs₁
  | cons l ls =>
    have hstep : s.step? l = s₁.step? l := by
      cases l with
      | operator op =>
        cases op with
        | sub => exact absurd rfl hls
        | _ => rfl
      | _ => rfl
    rw [Spot.run_cons, hstep]
    exact h

/-- A row that leads from a sign to an operand does not begin with a sign. -/
theorem Spot.head?_ne_sub_of_run {s : Spot} (h : Spot.sign.run ls = some s) :
    ls.head? ≠ some (.operator .sub) := by
  cases ls with
  | nil => nofun
  | cons l ls =>
    rintro ⟨⟩
    cases h

end Lexemes

/-! ### Tight texts -/

/-- The lexemes of a text lead from one place to another, and so do those of the text without one of its
pairs of brackets, which weigh one less. -/
structure Tight (s : Spot) (t : List Char) (ls : List Lexeme) (s' : Spot) : Prop where
  lexes : lexemes t = some ls
  runs : s.run ls = some s'
  paired : Paired t
  loosened : ∀ t', Unbracketed t t' →
    ∃ ls', lexemes t' = some ls' ∧ s.run ls' = some s' ∧ weight ls' + 1 = weight ls

section Texts

variable {s s₁ s₂ s' : Spot} {t u v : List Char} {ls m m' : List Lexeme}

/-- A text without brackets. -/
theorem tight_of_lexemes (h : lexemes t = some ls) (hrun : s.run ls = some s') (hl : .lparen ∉ ls)
    (hr : .rparen ∉ ls) : Tight s t ls s' where
  lexes := h
  runs := hrun
  paired := paired_of_not_mem (not_mem_lparen h hl) (not_mem_rparen h hr)
  loosened := fun _ ht => absurd ht (not_unbracketed_of_not_mem (not_mem_lparen h hl))

/-- A text behind a gap. -/
theorem Tight.behind {gap : Doc} {indent : Int} {g : List Char} (hgap : Gap gap m)
    (hg : gap.Renders indent g) (hrun : s.run m = some s₁) (hl : .lparen ∉ m) (hr : .rparen ∉ m)
    (h : Tight s₁ t ls s') : Tight s (g ++ t) (m ++ ls) s' := by
  have hlexes := (hgap.spells indent g hg).1
  obtain ⟨rest, c, rfl, hc⟩ := hgap.last indent g hg
  have hfree := tight_of_lexemes hlexes hrun hl hr
  refine ⟨lexemes_append_some (separator_apart hc) hlexes h.lexes, ?_,
    hfree.paired.append h.paired, fun t' ht => ?_⟩
  · rw [Spot.run_append, hrun]
    exact h.runs
  · obtain ⟨_, hg', -⟩ | ⟨t₂, ht₂, rfl⟩ := ht.append_cases hfree.paired
    · exact absurd hg' (not_unbracketed_of_not_mem (not_mem_lparen hlexes hl))
    · obtain ⟨ls', hls', hrun', hweight⟩ := h.loosened t₂ ht₂
      refine ⟨m ++ ls', lexemes_append_some (separator_apart hc) hlexes hls', ?_, ?_⟩
      · rw [Spot.run_append, hrun]
        exact hrun'
      · simp only [weight_append]
        omega

/-- Two texts, of which the second one begins with a separator that is no bracket. -/
theorem Tight.append {c : Char} (h : Tight s t ls s₁) (h' : Tight s₁ (c :: v) m s')
    (hc : isSeparator c = true) (hbracket : c ≠ '(') : Tight s (t ++ c :: v) (ls ++ m) s' := by
  refine ⟨lexemes_append_some (apart_separator hc) h.lexes h'.lexes, ?_,
    h.paired.append h'.paired, fun t' ht => ?_⟩
  · rw [Spot.run_append, h.runs]
    exact h'.runs
  · obtain ⟨t₁, ht₁, rfl⟩ | ⟨t₂, ht₂, rfl⟩ := ht.append_cases h.paired
    · obtain ⟨ls', hls', hrun', hweight⟩ := h.loosened t₁ ht₁
      refine ⟨ls' ++ m, lexemes_append_some (apart_separator hc) hls' h'.lexes, ?_, ?_⟩
      · rw [Spot.run_append, hrun']
        exact h'.runs
      · simp only [weight_append]
        omega
    · obtain ⟨ls', hls', hrun', hweight⟩ := h'.loosened t₂ ht₂
      obtain ⟨v', rfl⟩ := ht₂.exists_cons hbracket
      refine ⟨ls ++ ls', lexemes_append_some (apart_separator hc) h.lexes hls', ?_, ?_⟩
      · rw [Spot.run_append, h.runs]
        exact hrun'
      · simp only [weight_append]
        omega

/-- Two texts with a gap between them. -/
theorem Tight.between {gap : Doc} {indent : Int} {g : List Char} (h : Tight s t ls s₁)
    (hgap : Gap gap m) (hg : gap.Renders indent g) (hrun : s₁.run m = some s₂) (hl : .lparen ∉ m)
    (hr : .rparen ∉ m) (h' : Tight s₂ v m' s') : Tight s (t ++ (g ++ v)) (ls ++ (m ++ m')) s' := by
  have hbehind := h'.behind hgap hg hrun hl hr
  have hfree := not_mem_lparen (hgap.spells indent g hg).1 hl
  obtain ⟨c, rest, rfl, hc⟩ := hgap.first indent g hg
  exact h.append hbehind hc fun heq => hfree (heq ▸ List.mem_cons_self)

/-- Blanks in front of a text. -/
theorem Tight.blanks_append (h : Tight s t ls s') {blanks : List Char}
    (hb : ∀ c ∈ blanks, Text.isBlank c = true) : Tight s (blanks ++ t) ls s' := by
  have hblank : Tight s blanks [] s := by
    refine tight_of_lexemes ?_ rfl (by simp) (by simp)
    rw [← List.append_nil blanks, lexemes_blanks hb, lexemes_nil]
  refine ⟨(lexemes_blanks hb).trans h.lexes, h.runs, hblank.paired.append h.paired,
    fun t' ht => ?_⟩
  obtain ⟨_, hb', -⟩ | ⟨t₂, ht₂, rfl⟩ := ht.append_cases hblank.paired
  · exact absurd hb' (not_unbracketed_of_not_mem (not_mem_lparen hblank.lexes (by simp)))
  · rw [lexemes_blanks hb]
    exact h.loosened t₂ ht₂

/-- Blanks behind a text. -/
theorem Tight.append_blanks (h : Tight s t ls s') {blanks : List Char}
    (hb : ∀ c ∈ blanks, Text.isBlank c = true) : Tight s (t ++ blanks) ls s' := by
  have hblank : Tight s' blanks [] s' := by
    refine tight_of_lexemes ?_ rfl (by simp) (by simp)
    rw [← List.append_nil blanks, lexemes_blanks hb, lexemes_nil]
  cases blanks with
  | nil => rwa [List.append_nil]
  | cons c blanks =>
    have hc := hb c List.mem_cons_self
    simpa using h.append hblank (isSeparator_of_isBlank hc) fun heq => by rw [heq] at hc; cases hc

/-! ### Brackets -/

theorem lexemes_brackets (h : lexemes t = some ls) :
    lexemes ('(' :: (t ++ [')'])) = some (.lparen :: (ls ++ [.rparen])) := by
  have hclose : lexemes [')'] = some [.rparen] := lexemes_alone (by decide) rfl
  rw [lexemes_token (by decide) (scan_lparen _), List.drop_zero,
    lexemes_append_some (apart_separator (by decide)) h hclose]
  rfl

theorem Spot.run_brackets (h : Spot.start.run ls = some s') :
    s.run (.lparen :: (ls ++ [.rparen])) = some .operand := by
  show Spot.start.run (ls ++ [.rparen]) = _
  rw [run_append, h]
  rfl

theorem weight_brackets (ls : List Lexeme) : weight (.lparen :: (ls ++ [.rparen])) = weight ls + 1 := by
  simp [Lexeme.weight, Int.add_comm]

/-- A text in round brackets. -/
theorem Tight.brackets (h : Tight .start t ls .operand) :
    Tight .start ('(' :: (t ++ [')'])) (.lparen :: (ls ++ [.rparen])) .operand := by
  refine ⟨lexemes_brackets h.lexes, Spot.run_brackets h.runs, h.paired.brackets, fun t' ht => ?_⟩
  rw [weight_brackets]
  obtain rfl | ⟨x, hx, rfl⟩ := ht.brackets_cases h.paired
  · exact ⟨ls, h.lexes, h.runs, rfl⟩
  · obtain ⟨ls', hls', hrun, hweight⟩ := h.loosened x hx
    refine ⟨_, lexemes_brackets hls', Spot.run_brackets hrun, ?_⟩
    rw [weight_brackets, hweight]

/-- A call. -/
theorem Tight.call (f : Builtin) (h : Tight .start t ls s') :
    Tight s (f.mnemonic.toList ++ '(' :: (t ++ [')'])) (.function f :: .lparen :: (ls ++ [.rparen]))
      .operand := by
  obtain ⟨c, rest, hf, hc, hrest⟩ := mnemonic_shape f
  have hname : ∀ c ∈ f.mnemonic.toList, c.isAlphanum = true := by
    rw [hf]
    exact List.forall_mem_cons.mpr ⟨isAlphanum_of_isAlpha hc, hrest⟩
  have hlexes : ∀ {x ls'}, lexemes x = some ls' →
      lexemes (f.mnemonic.toList ++ '(' :: (x ++ [')']))
        = some (.function f :: .lparen :: (ls' ++ [.rparen])) := by
    intro x ls' hx
    have hopen : lexemes (f.mnemonic.toList ++ ['(']) = some [.function f, .lparen] := by
      rw [← lexemes_mnemonic f, String.toList_append]
      rfl
    have hclose : lexemes [')'] = some [.rparen] := lexemes_alone (by decide) rfl
    have hinner := lexemes_append_some (apart_separator (by decide)) hx hclose
    simpa using lexemes_append_some (separator_apart (by decide)) hopen hinner
  have hpaired : Paired f.mnemonic.toList :=
    paired_of_not_mem (fun hm => absurd (hname _ hm) (by decide))
      fun hm => absurd (hname _ hm) (by decide)
  refine ⟨hlexes h.lexes, Spot.run_brackets (s := .start) h.runs, hpaired.append h.paired.brackets,
    fun t' ht => ?_⟩
  -- the brackets of the call stay, so the pair is left out among the arguments
  obtain ⟨x, hx, rfl⟩ := ht.call_cases hname (by simp [hf]) h.paired
  obtain ⟨ls', hls', hrun, hweight⟩ := h.loosened x hx
  refine ⟨_, hlexes hls', Spot.run_brackets (s := .start) hrun, ?_⟩
  simp only [weight_cons, weight_append, ← hweight]
  omega

/-! ### Signs -/

/-- The text begins with an operand that has no sign. -/
def BeginsOperand (t : List Char) : Prop :=
  ∃ c rest, t = c :: rest ∧ (c = '(' ∨ c.isAlphanum = true)

theorem BeginsOperand.scan (h : BeginsOperand t) : scan '-' t = .ok (.operator .sub, 0) := by
  obtain ⟨c, rest, rfl, hc⟩ := h
  have hpair : pairLexeme? '-' c = none := by
    by_contra hne
    have hmem := pairLexeme?_right hne
    simp only [List.mem_cons, List.not_mem_nil, or_false] at hmem
    rcases hmem with rfl | rfl | rfl | rfl | rfl | rfl <;> revert hc <;> decide
  rw [FieldLang.scan, List.head?_cons, Option.bind_some, hpair]
  rfl

/-- A sign in front of such a text. -/
theorem BeginsOperand.lexemes_minus (h : BeginsOperand t) :
    lexemes ('-' :: t) = (lexemes t).map (.operator .sub :: ·) := by
  rw [lexemes_token (by decide) h.scan, List.drop_zero]

theorem BeginsOperand.run_sign (h : BeginsOperand t) (ht : lexemes t = some ls)
    (hrun : Spot.start.run ls = some .operand) :
    Spot.start.run (.operator .sub :: ls) = some .operand := by
  obtain ⟨c, rest, rfl, hc⟩ := h
  have hblank : ¬Text.isBlank c = true := by
    rintro hb
    rcases hc with rfl | hc
    · cases hb
    · rw [isAlphanum_of_isBlank hb] at hc
      cases hc
  show Spot.sign.run ls = _
  refine Spot.run_anywhere hrun (by simp) (head?_ne_sub ht hblank ?_)
  rintro rfl
  revert hc
  decide

theorem paired_minus : Paired ['-'] := paired_of_not_mem (by decide) (by decide)

/-- A pair of brackets behind a sign. -/
theorem Unbracketed.minus_cases {t' : List Char} (h : Unbracketed ('-' :: t) t') :
    ∃ t₂, Unbracketed t t₂ ∧ t' = '-' :: t₂ := by
  obtain ⟨_, h₁, -⟩ | ⟨t₂, h₂, rfl⟩ := Unbracketed.append_cases paired_minus h
  · exact absurd h₁ (not_unbracketed_of_not_mem (by decide))
  · exact ⟨t₂, h₂, rfl⟩

/-- A sign in front of a word. -/
theorem Tight.minus {c : Char} {rest : List Char} (h : Tight .start (c :: rest) ls .operand)
    (hc : c.isAlphanum = true) :
    Tight .start ('-' :: c :: rest) (.operator .sub :: ls) .operand := by
  have hword : ∀ rest, BeginsOperand (c :: rest) := fun rest => ⟨c, rest, rfl, .inr hc⟩
  refine ⟨?_, (hword rest).run_sign h.lexes h.runs, paired_minus.append h.paired, fun t' ht => ?_⟩
  · rw [(hword rest).lexemes_minus, h.lexes]
    rfl
  · obtain ⟨t₂, ht₂, rfl⟩ := ht.minus_cases
    obtain ⟨ls', hls', hrun, hweight⟩ := h.loosened t₂ ht₂
    obtain ⟨rest', rfl⟩ := ht₂.exists_cons fun heq => by
      rw [heq] at hc
      cases hc
    refine ⟨.operator .sub :: ls', ?_, (hword rest').run_sign hls' hrun, ?_⟩
    · rw [(hword rest').lexemes_minus, hls']
      rfl
    · rw [weight_cons, weight_cons, ← hweight]
      omega

/-- The text begins with an operand, or with one sign in front of it. -/
def BeginsSigned (t : List Char) : Prop :=
  BeginsOperand t ∨ ∃ rest, t = '-' :: rest ∧ BeginsOperand rest

theorem BeginsSigned.append {u : List Char} (h : BeginsSigned u) (v : List Char) :
    BeginsSigned (u ++ v) := by
  obtain ⟨c, rest, rfl, hc⟩ | ⟨_, rfl, c, rest, rfl, hc⟩ := h
  · exact .inl ⟨c, rest ++ v, rfl, hc⟩
  · exact .inr ⟨_, rfl, c, rest ++ v, rfl, hc⟩

/-- Without the brackets behind a sign, its lexemes lead on, and another sign makes a step of it. -/
theorem Tight.minus_dropped (h : Tight .start t ls .operand) (hbegins : BeginsSigned t) :
    ∃ ls', lexemes ('-' :: t) = some ls' ∧ Spot.start.run ls' = some .operand ∧
      weight ls' = weight ls := by
  obtain hbegins | ⟨rest, rfl, hbegins⟩ := hbegins
  · refine ⟨.operator .sub :: ls, ?_, hbegins.run_sign h.lexes h.runs, ?_⟩
    · rw [hbegins.lexemes_minus, h.lexes]
      rfl
    · simp [Lexeme.weight]
  · have hls := h.lexes
    rw [hbegins.lexemes_minus] at hls
    obtain ⟨ms, hms, rfl⟩ := Option.map_eq_some_iff.mp hls
    have hrun : Spot.sign.run ms = some .operand := h.runs
    refine ⟨.step .decrement :: ms, ?_, ?_, ?_⟩
    · have hstep : scan '-' ('-' :: rest) = .ok (.step .decrement, 1) := rfl
      rw [lexemes_token (by decide) hstep, List.drop_one, List.tail_cons, hms]
      rfl
    · show Spot.operand.run ms = _
      exact Spot.run_anywhere hrun (by simp) (Spot.head?_ne_sub_of_run hrun)
    · simp [Lexeme.weight]

/-- A sign in front of a text in round brackets. -/
theorem Tight.minus_brackets (h : Tight .start t ls .operand) (hbegins : BeginsSigned t) :
    Tight .start ('-' :: '(' :: (t ++ [')'])) (.operator .sub :: .lparen :: (ls ++ [.rparen]))
      .operand := by
  have hbracket : ∀ rest, BeginsOperand ('(' :: rest) := fun rest => ⟨'(', rest, rfl, .inl rfl⟩
  refine ⟨?_, Spot.run_brackets (s := .sign) h.runs, paired_minus.append h.paired.brackets,
    fun t' ht => ?_⟩
  · rw [(hbracket _).lexemes_minus, lexemes_brackets h.lexes]
    rfl
  · rw [weight_cons, weight_brackets]
    obtain ⟨t₂, ht₂, rfl⟩ := ht.minus_cases
    obtain rfl | ⟨x, hx, rfl⟩ := ht₂.brackets_cases h.paired
    · obtain ⟨ls', hls', hrun, hweight⟩ := h.minus_dropped hbegins
      exact ⟨ls', hls', hrun, by rw [hweight]; simp [Lexeme.weight]⟩
    · obtain ⟨ls', hls', hrun, hweight⟩ := h.loosened x hx
      refine ⟨.operator .sub :: .lparen :: (ls' ++ [.rparen]), ?_, ?_, ?_⟩
      · rw [(hbracket _).lexemes_minus, lexemes_brackets hls']
        rfl
      · exact Spot.run_brackets (s := .sign) hrun
      · rw [weight_cons, weight_brackets, ← hweight]
        omega

end Texts

end FieldLang
