/-
Texts cut where no token crosses.

* `lexemes` : the lexemes of a text, whatever their offsets;
* `Joins`, `Apart` : when a character can belong to the token before it, and when none does
  where two texts meet;
* `tokensFrom_eq_shifted`, `tokensFrom_append` : the tokens of a text that begins somewhere, and of two
  texts that are apart;
* `lexemes_append` : the lexemes of two texts that are apart are those of each;
* `IsName`, `isName_iff` : the names that are read as variables;
* `isName_of_mem`, `number_of_mem` : the names and numbers among the lexemes of a text.
-/
import FieldLang.Proofs.Except
import FieldLang.Syntax.Token
import Mathlib.Data.List.TakeWhile
import Mathlib.Tactic.ByContra

namespace FieldLang

/-! ### Characters -/

/-- A property of the characters of a list is decided on the list, not on every character. -/
instance (priority := 2000) decidableForallChars {l : List Char} {P : Char → Prop} [DecidablePred P] :
    Decidable (∀ c ∈ l, P c) := List.decidableBAll P l

section Chars

variable {a b c : Char}

theorem pairLexeme?_left (h : pairLexeme? a b ≠ none) :
    a ∈ ['=', '!', '>', '<', '&', '|', '*', '+', '-', '/'] := by
  revert h
  rw [pairLexeme?.eq_def]
  split <;> simp

theorem pairLexeme?_right (h : pairLexeme? a b ≠ none) : b ∈ ['=', '&', '|', '*', '+', '-'] := by
  revert h
  rw [pairLexeme?.eq_def]
  split <;> simp

theorem charLexeme?_mem (h : charLexeme? c ≠ none) :
    c ∈ ['+', '-', '*', '/', '>', '<', '=', '(', ')', '[', ']', '\x7b', '\x7d', ',', ';', '?', ':'] := by
  revert h
  rw [charLexeme?.eq_def]
  split <;> simp

theorem pairLexeme?_spelling {l : Lexeme} (h : pairLexeme? a b = some l) :
    l.fixedSpelling? = some (String.ofList [a, b]) := by
  revert h
  rw [pairLexeme?.eq_def]
  split <;> simp <;> rintro rfl <;> rfl

theorem charLexeme?_spelling {l : Lexeme} (h : charLexeme? c = some l) :
    l.fixedSpelling? = some (String.singleton c) := by
  revert h
  rw [charLexeme?.eq_def]
  split <;> simp <;> rintro rfl <;> rfl

theorem isAlphanum_of_isAlpha (h : c.isAlpha = true) : c.isAlphanum = true := by
  simp [Char.isAlphanum, h]

theorem isAlphanum_of_isDigit (h : c.isDigit = true) : c.isAlphanum = true := by
  simp [Char.isAlphanum, h]

/-- The code points of digits. -/
theorem toNat_of_isDigit (h : c.isDigit = true) : 48 ≤ c.toNat ∧ c.toNat ≤ 57 := by
  simp only [Char.isDigit, Bool.and_eq_true, decide_eq_true_eq, ge_iff_le,
    UInt32.le_iff_toNat_le] at h
  exact h

/-- The code points of letters. -/
theorem toNat_of_isAlpha (h : c.isAlpha = true) :
    (65 ≤ c.toNat ∧ c.toNat ≤ 90) ∨ (97 ≤ c.toNat ∧ c.toNat ≤ 122) := by
  have hupper : c.isUpper = true → 65 ≤ c.toNat ∧ c.toNat ≤ 90 := of_decide_eq_true
  have hlower : c.isLower = true → 97 ≤ c.toNat ∧ c.toNat ≤ 122 := fun h =>
    (Bool.and_eq_true_iff.mp h).imp of_decide_eq_true of_decide_eq_true
  exact (Bool.or_eq_true_iff.mp h).imp hupper hlower

/-- The code points of letters and digits. -/
theorem toNat_of_isAlphanum (h : c.isAlphanum = true) :
    (48 ≤ c.toNat ∧ c.toNat ≤ 57) ∨ (65 ≤ c.toNat ∧ c.toNat ≤ 90) ∨
      (97 ≤ c.toNat ∧ c.toNat ≤ 122) :=
  (Bool.or_eq_true_iff.mp h).symm.imp toNat_of_isDigit toNat_of_isAlpha

theorem toNat_of_isNumberChar (h : isNumberChar c = true) : c.toNat ≤ 57 := by
  rcases Bool.or_eq_true_iff.mp h with hd | hp
  · exact (toNat_of_isDigit hd).2
  · cases eq_of_beq hp
    decide

theorem toNat_of_isBlank (h : Text.isBlank c = true) :
    c.toNat ≤ 32 ∨ 133 ≤ c.toNat := by
  simp only [Text.isBlank, Text.blankRanges, List.any_cons, List.any_nil, Bool.or_eq_true,
    Bool.and_eq_true, decide_eq_true_eq, Bool.false_eq_true, or_false] at h
  omega

theorem isAlphanum_of_isBlank (h : Text.isBlank c = true) : c.isAlphanum = false := by
  rw [Bool.eq_false_iff]
  intro ha
  have := toNat_of_isBlank h
  have := toNat_of_isAlphanum ha
  omega

theorem isNumberChar_of_isBlank (h : Text.isBlank c = true) : isNumberChar c = false := by
  rw [Bool.eq_false_iff]
  intro hn
  rcases Bool.or_eq_true_iff.mp hn with hd | hp
  · exact absurd (isAlphanum_of_isDigit hd) (by simp [isAlphanum_of_isBlank h])
  · cases eq_of_beq hp
    exact absurd h (by decide)

/-- A letter or digit begins no mark. -/
theorem pairLexeme?_of_isAlphanum (h : c.isAlphanum = true) : pairLexeme? c b = none := by
  by_contra hne
  have hc := pairLexeme?_left hne
  simp only [List.mem_cons, List.not_mem_nil, or_false] at hc
  rcases hc with rfl | rfl | rfl | rfl | rfl | rfl | rfl | rfl | rfl | rfl <;> revert h <;> decide

theorem charLexeme?_of_isAlphanum (h : c.isAlphanum = true) : charLexeme? c = none := by
  by_contra hne
  have hc := charLexeme?_mem hne
  simp only [List.mem_cons, List.not_mem_nil, or_false] at hc
  rcases hc with rfl | rfl | rfl | rfl | rfl | rfl | rfl | rfl | rfl | rfl | rfl | rfl | rfl | rfl |
    rfl | rfl | rfl <;> revert h <;> decide

/-- A digit or a point begins no mark either. -/
theorem pairLexeme?_of_isNumberChar (h : isNumberChar c = true) : pairLexeme? c b = none := by
  rcases Bool.or_eq_true_iff.mp h with hd | hp
  · exact pairLexeme?_of_isAlphanum (isAlphanum_of_isDigit hd)
  · by_contra hne
    have hc := pairLexeme?_left hne
    rw [eq_of_beq hp] at hc
    revert hc
    decide

theorem charLexeme?_of_isNumberChar (h : isNumberChar c = true) : charLexeme? c = none := by
  rcases Bool.or_eq_true_iff.mp h with hd | hp
  · exact charLexeme?_of_isAlphanum (isAlphanum_of_isDigit hd)
  · rw [eq_of_beq hp]
    rfl

/-- The second character can belong to the token that the first one ends. -/
def Joins (a b : Char) : Prop :=
  pairLexeme? a b ≠ none ∨ (isNumberChar a = true ∧ isNumberChar b = true) ∨
    (a.isAlphanum = true ∧ b.isAlphanum = true)

/-- A character that is a token of its own or none at all. -/
def isSeparator (c : Char) : Bool := Text.isBlank c || ['(', ')', '[', ']', ','].contains c

theorem isSeparator_iff : isSeparator c = true ↔
    Text.isBlank c = true ∨ c ∈ ['(', ')', '[', ']', ','] := by
  simp [isSeparator]

theorem isAlphanum_of_isSeparator (h : isSeparator c = true) : c.isAlphanum = false := by
  rcases isSeparator_iff.mp h with hb | hc
  · exact isAlphanum_of_isBlank hb
  · simp only [List.mem_cons, List.not_mem_nil, or_false] at hc
    rcases hc with rfl | rfl | rfl | rfl | rfl <;> decide

theorem isNumberChar_of_isSeparator (h : isSeparator c = true) : isNumberChar c = false := by
  rcases isSeparator_iff.mp h with hb | hc
  · exact isNumberChar_of_isBlank hb
  · simp only [List.mem_cons, List.not_mem_nil, or_false] at hc
    rcases hc with rfl | rfl | rfl | rfl | rfl <;> decide

theorem not_joins_left (h : isSeparator a = true) : ¬Joins a b := by
  rintro (hp | ⟨hn, -⟩ | ⟨ha, -⟩)
  · have ha := pairLexeme?_left hp
    simp only [List.mem_cons, List.not_mem_nil, or_false] at ha
    rcases ha with rfl | rfl | rfl | rfl | rfl | rfl | rfl | rfl | rfl | rfl <;> revert h <;> decide
  · rw [isNumberChar_of_isSeparator h] at hn
    cases hn
  · rw [isAlphanum_of_isSeparator h] at ha
    cases ha

theorem not_joins_right (h : isSeparator b = true) : ¬Joins a b := by
  rintro (hp | ⟨-, hn⟩ | ⟨-, hb⟩)
  · have hb := pairLexeme?_right hp
    simp only [List.mem_cons, List.not_mem_nil, or_false] at hb
    rcases hb with rfl | rfl | rfl | rfl | rfl | rfl <;> revert h <;> decide
  · rw [isNumberChar_of_isSeparator h] at hn
    cases hn
  · rw [isAlphanum_of_isSeparator h] at hb
    cases hb

end Chars

/-! ### Cutting a text -/

/-- No token crosses the place where two texts meet. -/
def Apart (u v : List Char) : Prop := ∀ a ∈ u.getLast?, ∀ b ∈ v.head?, ¬Joins a b

theorem Apart.of_drop {u v : List Char} (h : Apart u v) (n : Nat) : Apart (u.drop n) v := by
  intro a ha
  by_cases hn : n < u.length
  · rw [List.getLast?_drop, if_neg (by omega)] at ha
    exact h a ha
  · rw [List.drop_eq_nil_of_le (by omega)] at ha
    cases ha

/-- Texts are apart where the second one begins with a separator. -/
theorem apart_separator {u v : List Char} {c : Char} (hc : isSeparator c = true) :
    Apart u (c :: v) := by
  intro a _ b hb
  cases hb
  exact not_joins_right hc

/-- Texts are apart where the first one ends with a separator. -/
theorem separator_apart {u v : List Char} {c : Char} (hc : isSeparator c = true) :
    Apart (u ++ [c]) v := by
  intro a ha b _
  rw [List.getLast?_concat] at ha
  cases ha
  exact not_joins_left hc

/-- A run of characters of one kind ends where two texts meet if the kind does not go on there. -/
theorem takeWhile_append_of_apart {p : Char → Bool} {c : Char} {rest v : List Char}
    (hp : p c = true)
    (h : ∀ a ∈ (c :: rest).getLast?, ∀ b ∈ v.head?, ¬(p a = true ∧ p b = true)) :
    (rest ++ v).takeWhile p = rest.takeWhile p := by
  induction rest generalizing c with
  | nil =>
    cases v with
    | nil => rfl
    | cons b v =>
      have hb : ¬p b = true := fun hb => h c rfl b rfl ⟨hp, hb⟩
      rw [List.nil_append, List.takeWhile_cons, if_neg hb, List.takeWhile_nil]
  | cons d rest ih =>
    by_cases hd : p d = true
    · have h' : ∀ a ∈ (d :: rest).getLast?, ∀ b ∈ v.head?, ¬(p a = true ∧ p b = true) := by
        rw [List.getLast?_cons_cons] at h
        exact h
      rw [List.cons_append, List.takeWhile_cons, if_pos hd, List.takeWhile_cons, if_pos hd, ih hd h']
    · rw [List.cons_append, List.takeWhile_cons, if_neg hd, List.takeWhile_cons, if_neg hd]

/-- A token is scanned from the text that it stands in, whatever follows apart from it. -/
theorem scan_append {c : Char} {rest v : List Char} (h : Apart (c :: rest) v) :
    scan c (rest ++ v) = scan c rest := by
  -- a mark of two characters does not reach into the second text
  have hpair : (rest ++ v).head?.bind (pairLexeme? c) = rest.head?.bind (pairLexeme? c) := by
    cases rest with
    | cons d rest => rfl
    | nil =>
      cases v with
      | nil => rfl
      | cons b v =>
        have hj := h c rfl b rfl
        have hnone : pairLexeme? c b = none := by
          by_contra hne
          exact hj (.inl hne)
        exact hnone
  rw [scan, scan, hpair]
  split
  · rfl
  · split
    · rfl
    · split
      · next hc =>
        rw [takeWhile_append_of_apart hc fun a ha b hb hab => h a ha b hb (.inr (.inl hab))]
      · split
        · next hc =>
          rw [takeWhile_append_of_apart (isAlphanum_of_isAlpha hc)
            fun a ha b hb hab => h a ha b hb (.inr (.inr hab))]
        · rfl

/-- A token takes no more characters than there are. -/
theorem scan_le {c : Char} {rest : List Char} {l : Lexeme} {n : Nat}
    (h : scan c rest = .ok (l, n)) : n ≤ rest.length := by
  rw [scan] at h
  split at h
  · next hpair =>
    cases h
    cases rest with
    | nil => cases hpair
    | cons d rest => simp
  · split at h
    · cases h
      exact Nat.zero_le _
    · split at h
      · obtain ⟨l', hl, h⟩ := bind_eq_ok.mp h
        cases h
        exact (List.takeWhile_sublist _).length_le
      · split at h
        · cases h
          exact (List.takeWhile_sublist _).length_le
        · cases h

/-! ### The tokens of a text -/

-- Naming the reader here generates its equations once, ahead of the proofs that use them.
attribute [local simp] tokensFrom

/-- A token that stands `n` characters further behind. -/
def Token.shift (n : Nat) (t : Token) : Token := ⟨t.lexeme, n + t.pos⟩

/-- An error `n` characters further behind. -/
def LexError.shift (n : Nat) (e : LexError) : LexError := ⟨e.fault, n + e.position⟩

/-- What a text is read as where it stands `n` characters further behind. -/
def shifted (n : Nat) : Except LexError (List Token) → Except LexError (List Token)
  | .ok ts => .ok (ts.map (Token.shift n))
  | .error e => .error (e.shift n)

theorem shifted_cons (n : Nat) (t : Token) (r : Except LexError (List Token)) :
    shifted n (do let more ← r; return t :: more)
      = do let more ← shifted n r; return t.shift n :: more := by
  cases r <;> rfl

/-- Where a text begins matters for the offsets only. -/
theorem tokensFrom_shifted (n offset : Nat) (text : List Char) :
    tokensFrom (n + offset) text = shifted n (tokensFrom offset text) := by
  -- by the length of the text, since a token may take several characters
  induction hn : text.length using Nat.strongRecOn generalizing text offset with
  | ind m ih =>
    subst hn
    cases text with
    | nil =>
      rw [tokensFrom, tokensFrom]
      rfl
    | cons c rest =>
      rw [tokensFrom, tokensFrom]
      by_cases hc : Text.isBlank c = true
      · rw [if_pos hc, if_pos hc, Nat.add_assoc]
        exact ih rest.length (Nat.lt_succ_self _) _ _ rfl
      · rw [if_neg hc, if_neg hc]
        cases scan c rest with
        | error fault => rfl
        | ok r =>
          obtain ⟨l, k⟩ := r
          have hk : (rest.drop k).length < (c :: rest).length := by
            rw [List.length_drop, List.length_cons]
            omega
          have hoffset : n + offset + k + 1 = n + (offset + k + 1) := by omega
          simp only [shifted_cons]
          rw [hoffset, ih _ hk _ _ rfl]
          rfl

theorem tokensFrom_eq_shifted (n : Nat) (text : List Char) :
    tokensFrom n text = shifted n (tokens text) := tokensFrom_shifted n 0 text

/-- The tokens of two texts that are apart are those of the first one and, behind them, those of the
second one. -/
theorem tokensFrom_append {u v : List Char} (h : Apart u v) (offset : Nat) :
    tokensFrom offset (u ++ v) = (do
      let front ← tokensFrom offset u
      let back ← tokensFrom (offset + u.length) v
      return front ++ back) := by
  -- on the length of the first text: a token takes several characters of it at once
  induction hn : u.length using Nat.strongRecOn generalizing offset u with
  | ind n ih =>
    subst hn
    cases u with
    | nil =>
      rw [List.nil_append, List.length_nil, Nat.add_zero, tokensFrom.eq_1 offset]
      cases tokensFrom offset v <;> rfl
    | cons c rest =>
      have hrest : Apart rest v := h.of_drop 1
      rw [List.cons_append, tokensFrom, tokensFrom.eq_2]
      by_cases hc : Text.isBlank c = true
      · have hlength : offset + (c :: rest).length = offset + 1 + rest.length := by
          rw [List.length_cons]
          omega
        rw [if_pos hc, if_pos hc, hlength]
        exact ih rest.length (Nat.lt_succ_self _) hrest _ rfl
      · rw [if_neg hc, if_neg hc, scan_append h]
        cases hs : scan c rest with
        | error fault => rfl
        | ok r =>
          obtain ⟨l, k⟩ := r
          have hk : k ≤ rest.length := scan_le hs
          have hlength : offset + k + 1 + (rest.drop k).length = offset + (c :: rest).length := by
            rw [List.length_drop, List.length_cons]
            omega
          have hless : (rest.drop k).length < (c :: rest).length := by
            rw [List.length_drop, List.length_cons]
            omega
          simp only
          rw [List.drop_append_of_le_length hk, ih _ hless (hrest.of_drop k) _ rfl, hlength]
          cases tokensFrom (offset + k + 1) (rest.drop k) with
          | error e => rfl
          | ok front => cases tokensFrom (offset + (c :: rest).length) v <;> rfl

/-! ### Blanks -/

theorem isSeparator_of_isBlank {c : Char} (h : Text.isBlank c = true) : isSeparator c = true :=
  isSeparator_iff.mpr (.inl h)

section Blanks

variable {u v blanks : List Char}

theorem apart_blanks (h : ∀ c ∈ blanks, Text.isBlank c = true) : Apart u blanks := fun _ _ b hb =>
  not_joins_right (isSeparator_of_isBlank (h b (List.mem_of_head? hb)))

theorem blanks_apart (hne : blanks ≠ []) (h : ∀ c ∈ blanks, Text.isBlank c = true) :
    Apart (u ++ blanks) v := by
  obtain ⟨front, c, rfl⟩ : ∃ front c, blanks = front ++ [c] :=
    ⟨_, _, (List.dropLast_concat_getLast hne).symm⟩
  rw [← List.append_assoc]
  exact separator_apart (isSeparator_of_isBlank (h c (by simp)))

theorem tokensFrom_blanks (h : ∀ c ∈ blanks, Text.isBlank c = true) (offset : Nat) :
    tokensFrom offset blanks = .ok [] := by
  induction blanks generalizing offset with
  | nil => rw [tokensFrom]
  | cons c blanks ih =>
    obtain ⟨hc, hblanks⟩ := List.forall_mem_cons.mp h
    rw [tokensFrom, if_pos hc, ih hblanks]

theorem tokensFrom_append_blanks (h : ∀ c ∈ blanks, Text.isBlank c = true) (offset : Nat) :
    tokensFrom offset (u ++ blanks) = tokensFrom offset u := by
  rw [tokensFrom_append (apart_blanks h), tokensFrom_blanks h]
  cases tokensFrom offset u with
  | error e => rfl
  | ok ts => exact congrArg Except.ok (List.append_nil ts)

end Blanks

/-! ### The lexemes of a text -/

/-- Tokens without their offsets, if there are any. -/
def withoutOffsets (r : Except LexError (List Token)) : Option (List Lexeme) :=
  match r with
  | .ok ts => some (ts.map Token.lexeme)
  | .error _ => none

/-- The lexemes of a text, if it has any reading. -/
def lexemes (text : List Char) : Option (List Lexeme) := withoutOffsets (tokens text)

/-- The reading of a token and what follows. -/
theorem withoutOffsets_cons {t : Token} {r : Except LexError (List Token)} :
    withoutOffsets (do let more ← r; return t :: more)
      = (withoutOffsets r).map (t.lexeme :: ·) := by
  cases r <;> rfl

/-- The lexemes do not depend on where the text begins. -/
theorem withoutOffsets_tokensFrom (offset : Nat) (text : List Char) :
    withoutOffsets (tokensFrom offset text) = lexemes text := by
  rw [tokensFrom_eq_shifted, lexemes]
  cases tokens text with
  | error e => rfl
  | ok ts => exact congrArg some (List.map_map ..)

@[simp] theorem lexemes_nil : lexemes [] = some [] := by
  rw [lexemes, tokens, tokensFrom]
  rfl

theorem lexemes_blank {c : Char} {rest : List Char} (hc : Text.isBlank c = true) :
    lexemes (c :: rest) = lexemes rest := by
  rw [lexemes, tokens, tokensFrom, if_pos hc, withoutOffsets_tokensFrom]

theorem lexemes_error {c : Char} {rest : List Char} {fault : LexFault}
    (hc : ¬Text.isBlank c = true) (h : scan c rest = .error fault) : lexemes (c :: rest) = none := by
  rw [lexemes, tokens, tokensFrom, if_neg hc, h]
  rfl

theorem lexemes_token {c : Char} {rest : List Char} {l : Lexeme} {n : Nat}
    (hc : ¬Text.isBlank c = true) (h : scan c rest = .ok (l, n)) :
    lexemes (c :: rest) = (lexemes (rest.drop n)).map (l :: ·) := by
  rw [lexemes, tokens, tokensFrom, if_neg hc, h]
  simp only [withoutOffsets_cons]
  rw [withoutOffsets_tokensFrom]

/-- The lexemes of two texts that are apart are those of each. -/
theorem lexemes_append {u v : List Char} (h : Apart u v) :
    lexemes (u ++ v) = (do let l ← lexemes u; let m ← lexemes v; some (l ++ m)) := by
  rw [lexemes, tokens, tokensFrom_append h, ← withoutOffsets_tokensFrom 0 u,
    ← withoutOffsets_tokensFrom (0 + u.length) v]
  cases tokensFrom 0 u with
  | error e => rfl
  | ok front =>
    cases tokensFrom (0 + u.length) v with
    | error e => rfl
    | ok back => exact congrArg some List.map_append

/-- The lexemes of two texts that are apart, when each has a reading. -/
theorem lexemes_append_some {u v : List Char} {l m : List Lexeme} (h : Apart u v)
    (hu : lexemes u = some l) (hv : lexemes v = some m) : lexemes (u ++ v) = some (l ++ m) := by
  rw [lexemes_append h, hu, hv]
  rfl

/-! ### Names and numbers -/

/-- The text of a name that is read as a variable. -/
def IsName (name : String) : Prop := lexemes name.toList = some [.variable name]

theorem scan_name {c : Char} (rest : List Char) (hc : c.isAlpha = true) :
    scan c rest = .ok (nameLexeme (String.ofList (c :: rest.takeWhile Char.isAlphanum)),
      (rest.takeWhile Char.isAlphanum).length) := by
  have ha := isAlphanum_of_isAlpha hc
  have hpair : rest.head?.bind (pairLexeme? c) = none := by
    cases rest with
    | nil => rfl
    | cons d rest => exact pairLexeme?_of_isAlphanum ha
  have hn : ¬isNumberChar c = true := by
    intro hn
    have := toNat_of_isAlpha hc
    have := toNat_of_isNumberChar hn
    omega
  rw [scan, hpair]
  simp only
  rw [charLexeme?_of_isAlphanum ha]
  simp only
  rw [if_neg hn, if_pos hc]

theorem numberLexeme_ok {literal : List Char} {l : Lexeme} (h : numberLexeme literal = .ok l) :
    l = .number (Decimal.readLiteral literal) := by
  rw [numberLexeme] at h
  split at h
  · cases h
  · split at h
    · cases h
    · cases h
      rfl

/-- What a token is: a mark, a number or a name. -/
theorem scan_cases {c : Char} {rest : List Char} {l : Lexeme} {n : Nat}
    (h : scan c rest = .ok (l, n)) :
    (∃ spelling, l.fixedSpelling? = some spelling) ∨
      (∃ literal, l = .number (Decimal.readLiteral literal)) ∨
      (c.isAlpha = true ∧ l = nameLexeme (String.ofList (c :: rest.takeWhile Char.isAlphanum)) ∧
        n = (rest.takeWhile Char.isAlphanum).length) := by
  -- a letter begins a name, and marks and numbers begin with no letter
  by_cases hc : c.isAlpha = true
  · rw [scan_name rest hc] at h
    cases h
    exact .inr (.inr ⟨hc, rfl, rfl⟩)
  · rw [scan] at h
    split at h
    · next hpair =>
      cases h
      obtain ⟨d, -, hd⟩ := Option.bind_eq_some_iff.mp hpair
      exact .inl ⟨_, pairLexeme?_spelling hd⟩
    · split at h
      · next hchar =>
        cases h
        exact .inl ⟨_, charLexeme?_spelling hchar⟩
      · split at h
        · obtain ⟨l', hl, h⟩ := bind_eq_ok.mp h
          cases h
          exact .inr (.inl ⟨_, numberLexeme_ok hl⟩)
        · cases h

theorem nameLexeme_eq_variable {text name : String} (h : nameLexeme text = .variable name) :
    text = name ∧ Builtin.ofMnemonic? name = none := by
  rw [nameLexeme] at h
  split at h
  · cases h
  · next hnone =>
    cases h
    exact ⟨rfl, hnone⟩

theorem nameLexeme_ne_number (text : String) (value : Float) : nameLexeme text ≠ .number value := by
  rw [nameLexeme]
  split <;> simp

/-- Every lexeme of a text was scanned at some place of it. -/
theorem exists_scan_of_mem {text : List Char} {ls : List Lexeme} {l : Lexeme}
    (h : lexemes text = some ls) (hl : l ∈ ls) : ∃ c rest n, scan c rest = .ok (l, n) := by
  induction hn : text.length using Nat.strongRecOn generalizing text ls with
  | ind n ih =>
    cases text with
    | nil =>
      rw [lexemes_nil] at h
      cases h
      cases hl
    | cons c rest =>
      rw [List.length_cons] at hn
      by_cases hc : Text.isBlank c = true
      · rw [lexemes_blank hc] at h
        exact ih rest.length (by omega) h hl rfl
      -- the first lexeme is scanned here, and every other one in what it leaves
      · cases hs : scan c rest with
        | error fault =>
          rw [lexemes_error hc hs] at h
          cases h
        | ok r =>
          obtain ⟨first, k⟩ := r
          rw [lexemes_token hc hs] at h
          obtain ⟨more, hmore, rfl⟩ := Option.map_eq_some_iff.mp h
          rcases List.mem_cons.mp hl with rfl | hl
          · exact ⟨c, rest, k, hs⟩
          · exact ih (rest.drop k).length (by rw [List.length_drop]; omega) hmore hl rfl

/-- A name is a letter with letters and digits behind it that calls no function. -/
theorem isName_iff {name : String} : IsName name ↔
    ∃ c rest, name.toList = c :: rest ∧ c.isAlpha = true ∧ (∀ d ∈ rest, d.isAlphanum = true) ∧
      Builtin.ofMnemonic? name = none := by
  constructor
  · intro h
    obtain ⟨c, rest, n, hs⟩ := exists_scan_of_mem h (List.mem_singleton.mpr rfl)
    rcases scan_cases hs with ⟨spelling, hl⟩ | ⟨literal, hl⟩ | ⟨hc, hl, -⟩
    · cases hl
    · cases hl
    · obtain ⟨rfl, hnone⟩ := nameLexeme_eq_variable hl.symm
      exact ⟨c, _, String.toList_ofList, hc, fun d hd => List.mem_takeWhile_imp hd, hnone⟩
  · rintro ⟨c, rest, hname, hc, hrest, hnone⟩
    have hb : ¬Text.isBlank c = true := by
      intro hb
      have := isAlphanum_of_isAlpha hc
      rw [isAlphanum_of_isBlank hb] at this
      cases this
    have hs := scan_name rest hc
    rw [List.takeWhile_eq_self_iff.mpr hrest, ← hname, String.ofList_toList, nameLexeme, hnone] at hs
    rw [IsName, hname, lexemes_token hb hs, List.drop_length, lexemes_nil]
    rfl

/-- The names among the lexemes of a text are names. -/
theorem isName_of_mem {text : List Char} {ls : List Lexeme} {name : String}
    (h : lexemes text = some ls) (hl : .variable name ∈ ls) : IsName name := by
  obtain ⟨c, rest, n, hs⟩ := exists_scan_of_mem h hl
  rcases scan_cases hs with ⟨spelling, hl⟩ | ⟨literal, hl⟩ | ⟨hc, hl, -⟩
  · cases hl
  · cases hl
  · obtain ⟨rfl, hnone⟩ := nameLexeme_eq_variable hl.symm
    exact isName_iff.mpr
      ⟨c, _, String.toList_ofList, hc, fun d hd => List.mem_takeWhile_imp hd, hnone⟩

/-- The numbers among the lexemes of a text are literals. -/
theorem number_of_mem {text : List Char} {ls : List Lexeme} {value : Float}
    (h : lexemes text = some ls) (hl : .number value ∈ ls) :
    ∃ literal, value = Decimal.readLiteral literal := by
  obtain ⟨c, rest, n, hs⟩ := exists_scan_of_mem h hl
  rcases scan_cases hs with ⟨spelling, hl⟩ | ⟨literal, hl⟩ | ⟨-, hl, -⟩
  · cases hl
  · cases hl
    exact ⟨literal, rfl⟩
  · exact absurd hl.symm (nameLexeme_ne_number _ value)

/-- A literal of digits with at most one point is one lexeme. -/
theorem lexemes_number {literal : List Char} (hne : literal ≠ []) (hpoint : literal ≠ ['.'])
    (hall : ∀ c ∈ literal, isNumberChar c = true) (hcount : literal.count '.' ≤ 1) :
    lexemes literal = some [.number (Decimal.readLiteral literal)] := by
  obtain ⟨c, rest, rfl⟩ := List.exists_cons_of_ne_nil hne
  have hc := hall c (List.mem_cons_self ..)
  have hb : ¬Text.isBlank c = true := by
    intro hb
    rw [isNumberChar_of_isBlank hb] at hc
    cases hc
  have hpair : rest.head?.bind (pairLexeme? c) = none := by
    cases rest with
    | nil => rfl
    | cons d rest => exact pairLexeme?_of_isNumberChar hc
  have hrest : rest.takeWhile isNumberChar = rest :=
    List.takeWhile_eq_self_iff.mpr fun d hd => hall d (List.mem_cons_of_mem _ hd)
  have hs : scan c rest = .ok (.number (Decimal.readLiteral (c :: rest)), rest.length) := by
    rw [scan, hpair]
    simp only
    rw [charLexeme?_of_isNumberChar hc]
    simp only
    rw [if_pos hc, hrest, numberLexeme, if_neg (by omega), if_neg hpoint]
    rfl
  rw [lexemes_token hb hs, List.drop_length, lexemes_nil]
  rfl

end FieldLang
