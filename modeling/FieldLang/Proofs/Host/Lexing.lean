/-
Tokens of texts in parts.

* `EndsToken`, `scanToken_append` : a token does not go on behind a separator;
* `Lexes`, `Separates` : the tokens of a part of a text, before a separator and before anything;
* `lexes_word`, `lexes_mark`, `lexes_pair`, `separates_mark` : single tokens;
* `Lexes.around` : two parts with a third one between spaces;
* `tokensFrom_trimLines` : trimming the lines of a text keeps its tokens.

Design notes: the tokens of a part depend on how many brackets are open before it, because a line
feed between brackets only separates. Parts are put together where one of them is closed.
-/
import FieldLang.Host.Token
import FieldLang.Proofs.Layout.Rendering
import FieldLang.Proofs.Syntax.Lexing
import Mathlib.Tactic.Tauto

namespace FieldLang.Host

/-! ### Separators -/

/-- The characters that no token goes on with. -/
def separators : List Char := [' ', '\n', '(', ')', '[', ']', ',']

/-- A text before which every token ends. -/
def EndsToken (v : List Char) : Prop := ∀ c, v.head? = some c → c ∈ separators

theorem endsToken_nil : EndsToken [] := nofun

theorem endsToken_cons {c : Char} (hc : c ∈ separators) (v : List Char) : EndsToken (c :: v) := by
  rintro d ⟨⟩
  exact hc

/-- No name and no literal goes on with a separator. -/
theorem separators_end : ∀ c ∈ separators, Text.continuesName c = false ∧ c.isDigit = false ∧
    c.isAlphanum = false ∧ c ≠ '.' ∧ c ≠ '_' ∧ c ≠ '-' ∧ c ≠ '+' := by
  decide

section Scan

variable {v : List Char} (hv : EndsToken v)
include hv

theorem takeWhile_append_ends {p : Char → Bool} (hp : ∀ c ∈ separators, p c = false)
    (u : List Char) : (u ++ v).takeWhile p = u.takeWhile p := by
  have hnone : v.takeWhile p = [] := by
    cases v with
    | nil => rfl
    | cons c v => rw [List.takeWhile_cons_of_neg (by simp [hp c (hv c rfl)])]
  rw [List.takeWhile_append]
  split
  · next hlength =>
    rw [hnone, List.append_nil]
    exact (List.takeWhile_prefix p).eq_of_length hlength |>.symm
  · rfl

theorem literalEnd_append (last : Char) (u : List Char) :
    literalEnd last (u ++ v) = literalEnd last u := by
  induction u generalizing last with
  | nil =>
    cases v with
    | nil => rfl
    | cons c v =>
      obtain ⟨-, -, halnum, hdot, hunderscore, hminus, hplus⟩ := separators_end c (hv c rfl)
      simp [literalEnd, halnum, hdot, hunderscore, hminus, hplus]
  | cons c u ih => simp only [List.cons_append, literalEnd, ih]

theorem pairMarks_append (c : Char) (u : List Char) :
    pairMarks.contains (c :: (u ++ v).take 1) = pairMarks.contains (c :: u.take 1) := by
  cases u with
  | cons d u => rfl
  | nil =>
    cases v with
    | nil => rfl
    | cons d v =>
      have hfirst : ∀ mark ∈ pairMarks, ∀ d ∈ separators, mark.getLast? ≠ some d := by decide
      have hlength : ∀ mark ∈ pairMarks, mark.length ≠ 1 := by decide
      have hd : pairMarks.contains [c, d] = false := by
        rw [List.contains_eq_mem, decide_eq_false]
        exact fun hm => hfirst _ hm d (hv d rfl) rfl
      have hc : pairMarks.contains [c] = false := by
        rw [List.contains_eq_mem, decide_eq_false]
        exact fun hm => hlength _ hm rfl
      show pairMarks.contains [c, d] = pairMarks.contains [c]
      rw [hd, hc]

/-- A token does not go on behind a separator. -/
theorem scanToken_append (c : Char) (u : List Char) : scanToken c (u ++ v) = scanToken c u := by
  have hdigit : ((u ++ v).head?.map Char.isDigit).getD false =
      (u.head?.map Char.isDigit).getD false := by
    cases u with
    | cons d u => rfl
    | nil =>
      cases v with
      | nil => rfl
      | cons d v => exact (separators_end d (hv d rfl)).2.1
  -- a mark of two characters does not reach behind the separator
  have htake : pairMarks.contains (c :: u.take 1) = true → (u ++ v).take 1 = u.take 1 := by
    cases u with
    | cons d u => exact fun _ => rfl
    | nil =>
      intro h
      have hlength : ∀ mark ∈ pairMarks, mark.length ≠ 1 := by decide
      exact absurd rfl (hlength [c] (List.contains_iff_mem.mp h))
  simp only [scanToken, hdigit, literalEnd_append hv, pairMarks_append hv,
    takeWhile_append_ends hv fun c hc => (separators_end c hc).1]
  split
  · rfl
  split
  · rfl
  split
  · next h => rw [htake h]
  · rfl

end Scan

/-! ### Tokens of a text -/

theorem tokensFrom_nil : tokensFrom 0 [] = some [] := by
  rw [tokensFrom, if_pos rfl]

theorem tokensFrom_space (d : Nat) (v : List Char) : tokensFrom d (' ' :: v) = tokensFrom d v := by
  rw [tokensFrom, if_neg (by decide), if_pos rfl]

theorem tokensFrom_break {d : Nat} (hd : d ≠ 0) (v : List Char) :
    tokensFrom d ('\n' :: v) = tokensFrom d v := by
  rw [tokensFrom, if_pos rfl, if_neg hd]

theorem tokensFrom_token {d n : Nat} {c : Char} {rest : List Char} {t : HostToken}
    (hc : c ≠ '\n' ∧ c ≠ ' ') (h : scanToken c rest = some (t, n)) :
    tokensFrom d (c :: rest) = (t :: ·) <$> tokensFrom (depthAfter d t) (rest.drop n) := by
  rw [tokensFrom, if_neg hc.1, if_neg hc.2, h]
  simp only
  cases tokensFrom (depthAfter d t) (rest.drop n) <;> rfl

/-- The token for the beginning of a line, if anything stands on it. -/
def lineStart (k : Nat) (v : List Char) : List HostToken :=
  if v.head? = none ∨ v.head? = some '\n' then [] else [.line k]

theorem tokensFrom_start (k : Nat) {v : List Char} (hv : v.head? ≠ some ' ') :
    tokensFrom 0 ('\n' :: (List.replicate k ' ' ++ v)) =
      (lineStart k v ++ ·) <$> tokensFrom 0 v := by
  have hindent : ((List.replicate k ' ' ++ v).takeWhile (· == ' ')) = List.replicate k ' ' := by
    rw [List.takeWhile_append_of_pos fun d hd => by simp [List.eq_of_mem_replicate hd]]
    cases v with
    | nil => simp
    | cons c v =>
      rw [List.takeWhile_cons_of_neg (by simpa using fun h => hv (congrArg some h)),
        List.append_nil]
  have hdrop : (List.replicate k ' ' ++ v).drop k = v := by
    rw [List.drop_append_of_le_length (by simp), List.drop_of_length_le (by simp), List.nil_append]
  rw [tokensFrom, if_pos rfl, if_pos rfl]
  simp only [hindent, List.length_replicate, hdrop, lineStart]
  cases tokensFrom 0 v with
  | none => rfl
  | some ts =>
    simp only [bind, Option.bind]
    split
    · next hhead => simp [hhead]
    · next hhead => simp [hhead]
    · next c hbreak hhead => simp [hhead, show c ≠ '\n' from hbreak]

/-- Before a separator the part of a text has these tokens, and the brackets open behind it are as
many as given. -/
def Lexes (d : Nat) (u : List Char) (ts : List HostToken) (d' : Nat) : Prop :=
  ∀ v, EndsToken v → tokensFrom d (u ++ v) = (ts ++ ·) <$> tokensFrom d' v

/-- The same before anything. -/
def Separates (d : Nat) (u : List Char) (ts : List HostToken) (d' : Nat) : Prop :=
  ∀ v, tokensFrom d (u ++ v) = (ts ++ ·) <$> tokensFrom d' v

section Parts

variable {d d' d'' : Nat} {u u' : List Char} {ts ts' : List HostToken}

theorem map_append_map (x : Option (List HostToken)) :
    (ts ++ ·) <$> (ts' ++ ·) <$> x = (ts ++ ts' ++ ·) <$> x := by
  cases x <;> simp

theorem Separates.lexes (h : Separates d u ts d') : Lexes d u ts d' := fun v _ => h v

theorem Separates.append (h : Separates d u ts d') (h' : Separates d' u' ts' d'') :
    Separates d (u ++ u') (ts ++ ts') d'' := by
  intro v
  rw [List.append_assoc, h, h', map_append_map]

theorem Separates.append_lexes (h : Separates d u ts d') (h' : Lexes d' u' ts' d'') :
    Lexes d (u ++ u') (ts ++ ts') d'' := by
  intro v hv
  rw [List.append_assoc, h, h' v hv, map_append_map]

/-- A part that begins with a separator, behind another one. -/
theorem Lexes.append {c : Char} (h : Lexes d u ts d') (hc : c ∈ separators)
    (h' : Separates d' (c :: u') ts' d'') : Separates d (u ++ c :: u') (ts ++ ts') d'' := by
  intro v
  have hu := h (c :: u' ++ v) (endsToken_cons hc (u' ++ v))
  rw [List.append_assoc, hu, h', map_append_map]

theorem Lexes.append_lexes {c : Char} (h : Lexes d u ts d') (hc : c ∈ separators)
    (h' : Lexes d' (c :: u') ts' d'') : Lexes d (u ++ c :: u') (ts ++ ts') d'' := by
  intro v hv
  have hu := h (c :: u' ++ v) (endsToken_cons hc (u' ++ v))
  rw [List.append_assoc, hu, h' v hv, map_append_map]

theorem separates_space (d : Nat) : Separates d [' '] [] d := by
  intro v
  rw [List.singleton_append, tokensFrom_space]
  simp

theorem Lexes.spaced (h : Lexes d u ts d') : Separates d (' ' :: (u ++ [' '])) ts d' := by
  have hback : Separates d (u ++ [' ']) ts d' := by
    simpa using h.append (by decide) (separates_space d')
  exact (separates_space d).append hback

/-- Two parts with a third one between spaces. -/
theorem Lexes.around {m : List Char} {ms : List HostToken} (h : Lexes d u ts d)
    (hm : Lexes d m ms d) (h' : Lexes d u' ts' d) :
    Lexes d (u ++ ' ' :: (m ++ ' ' :: u')) (ts ++ (ms ++ ts')) d := by
  refine h.append_lexes (by decide) ?_
  simpa using hm.spaced.append_lexes h'

/-- Blanks between brackets. -/
theorem separates_blanks (hd : d ≠ 0) (hu : ∀ c ∈ u, c = ' ' ∨ c = '\n') : Separates d u [] d := by
  induction u with
  | nil =>
    intro v
    simp
  | cons c u ih =>
    intro v
    have hrest := ih (fun c hc => hu c (List.mem_cons_of_mem _ hc)) v
    rw [List.cons_append]
    rcases hu c (List.mem_cons_self ..) with rfl | rfl
    · rw [tokensFrom_space, hrest]
    · rw [tokensFrom_break hd, hrest]

/-! ### Single tokens -/

theorem lexes_token {c : Char} {t : HostToken} (hc : c ≠ '\n' ∧ c ≠ ' ')
    (h : scanToken c u = some (t, u.length)) : Lexes d (c :: u) [t] (depthAfter d t) := by
  intro v hv
  rw [List.cons_append, tokensFrom_token hc (by rw [scanToken_append hv, h]), List.drop_left]
  rfl

theorem separates_mark {c : Char} (hc : c ∈ ['(', ')', '[', ']', ',', '+', '-']) :
    Separates d [c] [.mark (String.singleton c)] (depthAfter d (.mark (String.singleton c))) := by
  intro v
  have hpair : c :: v.take 1 ∉ pairMarks := by
    have hfirst : ∀ mark ∈ pairMarks, ∀ c ∈ ['(', ')', '[', ']', ',', '+', '-'],
        mark.head? ≠ some c := by decide
    exact fun hm => hfirst _ hm c hc rfl
  have hclass : ∀ c ∈ ['(', ')', '[', ']', ',', '+', '-'], Text.startsName c = false ∧
      c.isDigit = false ∧ c ≠ '.' ∧ c ∈ charMarks ∧ c ≠ '\n' ∧ c ≠ ' ' := by decide
  obtain ⟨hname, hdigit, hdot, hmark, hblank⟩ := hclass c hc
  have hscan : scanToken c v = some (.mark (String.singleton c), 0) := by
    simp [scanToken, hname, hdigit, hdot, hpair, hmark]
  rw [List.singleton_append, tokensFrom_token hblank hscan, List.drop_zero]
  rfl

theorem lexes_mark {c : Char} (hc : c ∈ charMarks) :
    Lexes d [c] [.mark (String.singleton c)] (depthAfter d (.mark (String.singleton c))) := by
  have hclass : ∀ c ∈ charMarks, Text.startsName c = false ∧ c.isDigit = false ∧
      pairMarks.contains [c] = false ∧ c ≠ '\n' ∧ c ≠ ' ' := by decide
  obtain ⟨hname, hdigit, hpair, hblank⟩ := hclass c hc
  have hscan : scanToken c [] = some (.mark (String.singleton c), 0) := by
    simp only [scanToken, hname, hdigit, List.head?_nil, Option.map_none, Option.getD_none,
      Bool.and_false, Bool.or_self, List.take_nil, hpair, List.contains_iff_mem.mpr hc,
      Bool.false_eq_true, if_false, if_true]
  exact lexes_token hblank hscan

theorem lexes_pair {c e : Char} (h : [c, e] ∈ pairMarks) :
    Lexes d [c, e] [.mark (String.ofList [c, e])] (depthAfter d (.mark (String.ofList [c, e]))) := by
  have hclass : ∀ mark ∈ pairMarks, ∀ c ∈ mark.take 1, Text.startsName c = false ∧
      c.isDigit = false ∧ c ≠ '.' ∧ c ≠ '\n' ∧ c ≠ ' ' := by decide
  obtain ⟨hname, hdigit, hdot, hblank⟩ := hclass _ h c (List.mem_cons_self ..)
  have hscan : scanToken c [e] = some (.mark (String.ofList [c, e]), 1) := by
    simp [scanToken, hname, hdigit, hdot, h]
  exact lexes_token hblank hscan

/-- What holds of all ASCII characters. -/
theorem ascii_forall {P : Char → Prop} (h : ∀ n < 128, P (Char.ofNat n)) {c : Char}
    (hc : c.toNat < 128) : P c := by
  have := h c.toNat hc
  rwa [Char.ofNat_toNat] at this

theorem toNat_lt_of_isAlphanum {c : Char} (h : c.isAlphanum = true ∨ c = '_') : c.toNat < 128 := by
  rcases h with h | rfl
  · have := toNat_of_isAlphanum h
    omega
  · decide

theorem startsName_of_isAlpha {c : Char} (h : c.isAlpha = true) : Text.startsName c = true :=
  ascii_forall (P := fun c => c.isAlpha = true → Text.startsName c = true) (by decide)
    (toNat_lt_of_isAlphanum (.inl (by simp [Char.isAlphanum, h]))) h

theorem continuesName_of_isAlphanum {c : Char} (h : c.isAlphanum = true ∨ c = '_') :
    Text.continuesName c = true :=
  ascii_forall (P := fun c => c.isAlphanum = true ∨ c = '_' → Text.continuesName c = true)
    (by decide) (toNat_lt_of_isAlphanum h) h

theorem ne_of_startsName {c : Char} (h : Text.startsName c = true) : c ≠ '\n' ∧ c ≠ ' ' := by
  constructor <;> rintro rfl <;> exact absurd h (by decide)

/-- An identifier. -/
theorem lexes_word {c : Char} (hc : Text.startsName c = true)
    (hu : ∀ e ∈ u, Text.continuesName e = true) :
    Lexes d (c :: u) [.name (String.ofList (c :: u))] d := by
  have hblank := ne_of_startsName hc
  have hscan : scanToken c u = some (.name (String.ofList (c :: u)), u.length) := by
    simp only [scanToken, hc, if_true, List.takeWhile_eq_self_iff.mpr hu]
  exact lexes_token hblank hscan

end Parts

/-! ### Trimming -/

theorem isPrefix_literalEnd (last : Char) (u : List Char) : literalEnd last u <+: u := by
  induction u generalizing last with
  | nil => exact List.prefix_refl []
  | cons c u ih =>
    rw [literalEnd]
    split
    · exact List.cons_prefix_cons.mpr ⟨rfl, ih c⟩
    split
    · exact List.cons_prefix_cons.mpr ⟨rfl, ih c⟩
    · exact List.nil_prefix

/-- The forms of a token. -/
theorem scanToken_cases {c : Char} {rest : List Char} {t : HostToken} {n : Nat}
    (h : scanToken c rest = some (t, n)) :
    (Text.startsName c = true ∧ n = (rest.takeWhile Text.continuesName).length) ∨
      (n = (literalEnd c rest).length ∧ literalToken (c :: literalEnd c rest) = some t) ∨
      (c :: rest.take 1 ∈ pairMarks ∧ n = 1) ∨ (c ∈ charMarks ∧ n = 0) := by
  rw [scanToken] at h
  -- the checks of the scanner, in their order
  split at h
  · next hstart =>
    cases h
    exact .inl ⟨hstart, rfl⟩
  split at h
  · refine .inr (.inl ?_)
    cases hl : literalToken (c :: literalEnd c rest) with
    | none => simp [hl] at h
    | some t' =>
      simp only [hl, bind, Option.bind, pure, Option.some.injEq, Prod.mk.injEq] at h
      exact ⟨h.2.symm, by rw [h.1]⟩
  split at h
  · next hpair =>
    cases h
    exact .inr (.inr (.inl ⟨List.contains_iff_mem.mp hpair, rfl⟩))
  split at h
  · next hmark =>
    cases h
    exact .inr (.inr (.inr ⟨List.contains_iff_mem.mp hmark, rfl⟩))
  · cases h

theorem length_of_scanToken {c : Char} {rest : List Char} {t : HostToken} {n : Nat}
    (h : scanToken c rest = some (t, n)) : n ≤ rest.length := by
  rcases scanToken_cases h with ⟨-, rfl⟩ | ⟨rfl, -⟩ | ⟨hm, rfl⟩ | ⟨-, rfl⟩
  · exact (List.takeWhile_prefix _).length_le
  · exact (isPrefix_literalEnd c rest).length_le
  · have hlength : ∀ mark ∈ pairMarks, mark.length = 2 := by decide
    have := hlength _ hm
    simp only [List.length_cons, List.length_take] at this
    omega
  · exact Nat.zero_le _

/-- The spaces at the beginning of a text. -/
theorem exists_indent (u : List Char) :
    ∃ k w, u = List.replicate k ' ' ++ w ∧ w.head? ≠ some ' ' := by
  induction u with
  | nil => exact ⟨0, [], rfl, by simp⟩
  | cons c u ih =>
    by_cases hc : c = ' '
    · obtain ⟨k, w, rfl, hw⟩ := ih
      exact ⟨k + 1, w, by rw [hc, List.replicate_succ, List.cons_append], hw⟩
    · exact ⟨0, c :: u, rfl, by simpa using hc⟩

/-- A space before the end of an indented line does not count if it does not before the end of what
follows the indentation. -/
theorem tokensFrom_start_trailing {v : List Char} (hv : v = [] ∨ ∃ rest, v = '\n' :: rest)
    (u : List Char)
    (h : ∀ w : List Char, w.length ≤ u.length →
      tokensFrom 0 (w ++ ' ' :: v) = tokensFrom 0 (w ++ v)) :
    tokensFrom 0 ('\n' :: (u ++ ' ' :: v)) = tokensFrom 0 ('\n' :: (u ++ v)) := by
  obtain ⟨k, w, rfl, hw⟩ := exists_indent u
  cases w with
  -- nothing but spaces: no line begins, with one space more or less
  | nil =>
    have hhead : v.head? ≠ some ' ' := by rcases hv with rfl | ⟨rest, rfl⟩ <;> simp
    have hstart : ∀ k, lineStart k v = [] := by
      intro k
      rcases hv with rfl | ⟨rest, rfl⟩ <;> rfl
    have hspaces : List.replicate k ' ' ++ ' ' :: v = List.replicate (k + 1) ' ' ++ v := by
      rw [List.replicate_succ', List.append_assoc, List.singleton_append]
    rw [List.append_nil, hspaces, tokensFrom_start _ hhead, tokensFrom_start _ hhead, hstart, hstart]
  | cons e w =>
    rw [List.append_assoc, List.append_assoc, tokensFrom_start k (by simpa using hw),
      tokensFrom_start k (by simpa using hw), h (e :: w) (by simp)]
    rfl

/-- A space before the end of a line does not count. -/
theorem tokensFrom_trailing {v : List Char} (hv : v = [] ∨ ∃ rest, v = '\n' :: rest) (d : Nat)
    (u : List Char) : tokensFrom d (u ++ ' ' :: v) = tokensFrom d (u ++ v) := by
  have hends : EndsToken v := by
    rcases hv with rfl | ⟨rest, rfl⟩
    · exact endsToken_nil
    · exact endsToken_cons (by decide) rest
  -- a token takes several characters, so the induction is on the length of the line
  induction hn : u.length using Nat.strongRecOn generalizing u d with
  | ind n ih =>
    subst hn
    cases u with
    | nil => exact tokensFrom_space d v
    | cons c u =>
      by_cases hspace : c = ' '
      · subst hspace
        rw [List.cons_append, List.cons_append, tokensFrom_space, tokensFrom_space]
        exact ih u.length (by simp) d u rfl
      by_cases hbreak : c = '\n'
      · subst hbreak
        by_cases hd : d = 0
        · subst hd
          exact tokensFrom_start_trailing hv u
            fun w hw => ih w.length (by simp; omega) 0 w rfl
        · rw [List.cons_append, List.cons_append, tokensFrom_break hd, tokensFrom_break hd]
          exact ih u.length (by simp) d u rfl
      · have hleft : scanToken c (u ++ ' ' :: v) = scanToken c u :=
          scanToken_append (endsToken_cons (by decide) v) c u
        have hright : scanToken c (u ++ v) = scanToken c u := scanToken_append hends c u
        rw [List.cons_append, List.cons_append]
        cases hscan : scanToken c u with
        | none =>
          rw [tokensFrom, tokensFrom, if_neg hbreak, if_neg hbreak, if_neg hspace, if_neg hspace,
            hleft, hright, hscan]
        | some r =>
          obtain ⟨t, n⟩ := r
          have hle := length_of_scanToken hscan
          rw [tokensFrom_token ⟨hbreak, hspace⟩ (hleft.trans hscan),
            tokensFrom_token ⟨hbreak, hspace⟩ (hright.trans hscan),
            List.drop_append_of_le_length hle, List.drop_append_of_le_length hle,
            ih (u.drop n).length (by simp only [List.length_drop, List.length_cons]; omega) _ _ rfl]

/-! ### Blanks -/

/-- No name has a blank in it. -/
theorem isBlank_of_name {c : Char}
    (h : Text.startsName c = true ∨ Text.continuesName c = true) : Text.isBlank c = false := by
  -- no range of blanks is longer than eleven characters, so each of them can be looked up
  have hranges : ∀ r ∈ Text.blankRanges, r.2 < r.1 + 11 ∧ ∀ k < 11, r.1 + k ≤ r.2 →
      Text.holdsAt Text.startChanges (r.1 + k) = false ∧
        Text.holdsAt Text.continueChanges (r.1 + k) = false := by decide +kernel
  by_contra hblank
  obtain ⟨r, hr, hn⟩ := List.any_eq_true.mp (show Text.isBlank c = true by simpa using hblank)
  simp only [Bool.and_eq_true, decide_eq_true_eq] at hn
  obtain ⟨hlength, hnone⟩ := hranges r hr
  have hc := hnone (c.toNat - r.1) (by omega) (by omega)
  rw [Nat.add_sub_cancel' hn.1] at hc
  rcases h with h | h
  · exact absurd h (by rw [Text.startsName, hc.1]; decide)
  · exact absurd h (by rw [Text.continuesName, hc.2]; decide)

/-- A literal consists of digits, a point, and an exponent. -/
theorem mem_of_literalToken {literal : List Char} {t : HostToken} (h : literalToken literal = some t) :
    ∀ e ∈ literal, e.isDigit = true ∨ e ∈ ['.', 'e', '-', '+'] := by
  rw [literalToken] at h
  split at h
  · next hall => exact fun e he => .inl (List.all_eq_true.mp hall e he)
  split at h
  · next hall =>
    intro e he
    have := List.all_eq_true.mp hall e he
    simp only [Bool.or_eq_true, beq_iff_eq] at this
    simp only [List.mem_cons, List.not_mem_nil, or_false]
    tauto
  · cases h

/-- No token has a blank in it. -/
theorem not_blank_of_scanToken {c : Char} {rest : List Char} {t : HostToken} {n : Nat}
    (h : scanToken c rest = some (t, n)) :
    ∀ e ∈ c :: rest.take n, Text.isBlank e = false := by
  -- a name, a number, a mark of two characters, or a mark of one
  rcases scanToken_cases h with ⟨hc, rfl⟩ | ⟨rfl, hl⟩ | ⟨hm, rfl⟩ | ⟨hm, rfl⟩
  · rw [← List.prefix_iff_eq_take.mp (List.takeWhile_prefix _)]
    intro e he
    rcases List.mem_cons.mp he with rfl | he
    · exact isBlank_of_name (.inl hc)
    · exact isBlank_of_name (.inr (List.mem_takeWhile_imp he))
  · rw [← List.prefix_iff_eq_take.mp (isPrefix_literalEnd c rest)]
    intro e he
    by_contra hblank
    have hblank : Text.isBlank e = true := by simpa using hblank
    rcases mem_of_literalToken hl e he with hdigit | hmark
    · have := isAlphanum_of_isBlank hblank
      simp [Char.isAlphanum, hdigit] at this
    · have hall : ∀ e ∈ ['.', 'e', '-', '+'], Text.isBlank e = false := by decide
      rw [hall e hmark] at hblank
      cases hblank
  · have hall : ∀ mark ∈ pairMarks, ∀ e ∈ mark, Text.isBlank e = false := by decide
    exact hall _ hm
  · have hall : ∀ e ∈ charMarks, Text.isBlank e = false := by decide
    intro e he
    obtain rfl : e = c := by simpa using he
    exact hall e hm

/-- The only blanks in a text that has tokens are spaces and line feeds. -/
theorem blank_of_tokensFrom {d : Nat} {u : List Char} {ts : List HostToken}
    (h : tokensFrom d u = some ts) : ∀ c ∈ u, Text.isBlank c = true → c = ' ' ∨ c = '\n' := by
  induction hn : u.length using Nat.strongRecOn generalizing u d ts with
  | ind n ih =>
    subst hn
    cases u with
    | nil => simp
    | cons c u =>
      by_cases hspace : c = ' '
      · subst hspace
        rw [tokensFrom_space] at h
        intro e he hblank
        rcases List.mem_cons.mp he with rfl | he
        · exact .inl rfl
        · exact ih u.length (by simp) h rfl e he hblank
      by_cases hbreak : c = '\n'
      · subst hbreak
        -- outside of brackets the indentation is read together with the line feed
        obtain ⟨d', k, w, ts', rfl, hw⟩ : ∃ d' k w ts', u = List.replicate k ' ' ++ w ∧
            tokensFrom d' w = some ts' := by
          by_cases hd : d = 0
          · subst hd
            obtain ⟨k, w, rfl, hhead⟩ := exists_indent u
            rw [tokensFrom_start k hhead] at h
            cases hw : tokensFrom 0 w with
            | none =>
              rw [hw] at h
              cases h
            | some ts' => exact ⟨0, k, w, ts', rfl, hw⟩
          · rw [tokensFrom_break hd] at h
            exact ⟨d, 0, u, ts, rfl, h⟩
        intro e he hblank
        rcases List.mem_cons.mp he with rfl | he
        · exact .inr rfl
        rcases List.mem_append.mp he with he | he
        · exact .inl (List.eq_of_mem_replicate he)
        · exact ih w.length (by simp only [List.length_cons, List.length_append]; omega) hw rfl e he hblank
      cases hscan : scanToken c u with
      | none =>
        rw [tokensFrom, if_neg hbreak, if_neg hspace, hscan] at h
        cases h
      | some r =>
        obtain ⟨t, n⟩ := r
        rw [tokensFrom_token ⟨hbreak, hspace⟩ hscan] at h
        intro e he hblank
        -- the blank is not in the token, so it stands behind it
        rw [← List.take_append_drop n u, ← List.cons_append] at he
        rcases List.mem_append.mp he with he | he
        · rw [not_blank_of_scanToken hscan e he] at hblank
          cases hblank
        · cases hrest : tokensFrom (depthAfter d t) (u.drop n) with
          | none =>
            rw [hrest] at h
            cases h
          | some ts' =>
            exact ih (u.drop n).length (by simp only [List.length_drop, List.length_cons]; omega) hrest rfl e he hblank

/-- Trimming a line of a text keeps the tokens. -/
theorem tokensFrom_trimEnd {d : Nat} {front line v : List Char} {ts : List HostToken}
    (hv : v = [] ∨ ∃ rest, v = '\n' :: rest) (hline : '\n' ∉ line)
    (h : tokensFrom d (front ++ (line ++ v)) = some ts) :
    tokensFrom d (front ++ (Text.trimEnd line ++ v)) = some ts := by
  obtain ⟨blanks, heq, hblanks⟩ := Layout.exists_trimEnd line
  -- the blanks that are trimmed can only be spaces, which are taken away one by one
  have hspaces : ∀ c ∈ blanks, c = ' ' := by
    intro c hc
    have hmem : c ∈ line := heq ▸ List.mem_append_right _ hc
    rcases blank_of_tokensFrom h c (by simp [hmem]) (hblanks c hc) with hspace | rfl
    · exact hspace
    · exact absurd hmem hline
  rw [heq, List.eq_replicate_of_mem hspaces, List.append_assoc, ← List.append_assoc front] at h
  rw [← List.append_assoc]
  generalize blanks.length = k at h
  induction k with
  | zero => exact h
  | succ k ih =>
    have hlast : front ++ Text.trimEnd line ++ (List.replicate (k + 1) ' ' ++ v) =
        front ++ Text.trimEnd line ++ List.replicate k ' ' ++ ' ' :: v := by
      simp [List.replicate_succ']
    rw [hlast, tokensFrom_trailing hv, List.append_assoc] at h
    exact ih h

/-- Trimming the lines of a text keeps its tokens. -/
theorem tokensFrom_trimLines {d : Nat} {front t back : List Char} {ts : List HostToken}
    (hback : back = [] ∨ ∃ rest, back = '\n' :: rest)
    (h : tokensFrom d (front ++ (t ++ back)) = some ts) :
    tokensFrom d (front ++ (Layout.trimLines t ++ back)) = some ts := by
  induction t using Layout.lines_induction generalizing front with
  | last line hline =>
    rw [Layout.trimLines_of_not_mem hline]
    exact tokensFrom_trimEnd hback hline h
  | more line rest hline ih =>
    rw [Layout.trimLines_append hline]
    rw [List.append_assoc] at h
    have htrim := tokensFrom_trimEnd (.inr ⟨rest ++ back, rfl⟩) hline h
    have hfront : tokensFrom d ((front ++ (Text.trimEnd line ++ ['\n'])) ++ (rest ++ back)) = some ts := by
      simpa using htrim
    simpa using ih hfront

end FieldLang.Host
