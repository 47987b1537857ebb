/-
What the tokens of a text are cut from.

* `marks` : the texts of marks, and what they say;
* `TokenClass`, `TokenClass.Allows` : the texts that tokens of a class are read from;
* `sliceLexeme?` : what such a text says;
* `Longest`, `scan_eq_ok_iff` : the scanner takes the longest text of its class;
* `Piece`, `SlicedFrom` : tokens with the slices of a text that they are read from;
* `slicedFrom_token`, `tokensFrom_slice_iff` : the first slice of a text, and the first token;
* `tokensFrom_eq_ok_iff`, `tokens_eq_ok_iff` : the tokens of a text are those that it can be cut into;
* `tokens_append_blanks` : where blanks stand between two texts, each is read on its own;
* `Spaced`, `lexemes_spaced` : slices with blanks between them;
* `tokens_lossless` : reading a text loses nothing but blanks.

Design notes: how far a slice goes is said of the text and the class alone, and what it says of the
slice alone, neither by way of the scanner. Together with the blanks between the slices this leaves one
way to cut a text, because the first character that is not blank must begin a slice.
-/
import FieldLang.Proofs.Decimal.Bits
import FieldLang.Proofs.Syntax.Lexing

namespace FieldLang

/-! ### Classes of tokens -/

/-- The texts of marks, of two characters and of one, and what they say. -/
def marks : List (List Char × Lexeme) :=
  [(['=', '='], .operator .eq), (['!', '='], .operator .notEq), (['>', '='], .operator .greaterEq),
    (['<', '='], .operator .lessEq), (['&', '&'], .operator .and), (['|', '|'], .operator .or),
    (['*', '*'], .operator .pow), (['+', '+'], .step .increment), (['-', '-'], .step .decrement),
    (['+', '='], .assign .add), (['-', '='], .assign .sub), (['*', '='], .assign .mul),
    (['/', '='], .assign .div), (['+'], .operator .add), (['-'], .operator .sub),
    (['*'], .operator .mul), (['/'], .operator .div), (['>'], .operator .greater),
    (['<'], .operator .less), (['='], .assign .plain), (['('], .lparen), ([')'], .rparen),
    (['['], .lbracket), ([']'], .rbracket), (['\x7b'], .lbrace), (['\x7d'], .rbrace), ([','], .comma),
    ([';'], .semicolon), (['?'], .question), ([':'], .colon)]

/-- The classes of tokens, by the characters of their texts. -/
inductive TokenClass where
  | mark | number | name

namespace TokenClass

/-- The texts of a class: a mark is one of a few texts, a number a run of digits and points, and a name
a letter with letters and digits behind it. -/
def Allows : TokenClass → List Char → Prop
  | mark, slice => slice ∈ marks.map Prod.fst
  | number, c :: rest => isNumberChar c = true ∧ ∀ d ∈ rest, isNumberChar d = true
  | name, c :: rest => c.isAlpha = true ∧ ∀ d ∈ rest, d.isAlphanum = true
  | _, [] => False

/-- The class of the tokens that begin with a character. -/
def of (c : Char) : TokenClass :=
  if isNumberChar c then number else if c.isAlpha then name else mark

/-- What a text of a class says, if it is in order. -/
def lexeme? : TokenClass → List Char → Option Lexeme
  | mark, slice => marks.lookup slice
  | number, slice => (numberLexeme slice).toOption
  | name, slice => some (nameLexeme (String.ofList slice))

end TokenClass

/-- What a text says as one token. -/
def sliceLexeme? (slice : List Char) : Option Lexeme :=
  slice.head?.bind fun c => (TokenClass.of c).lexeme? slice

section Classes

variable {k k' : TokenClass} {c d : Char} {rest slice slice' text : List Char} {l : Lexeme} {n : Nat}

theorem lookup_char (c : Char) : marks.lookup [c] = charLexeme? c := by
  rw [charLexeme?.eq_def]
  split
  -- any other character is no mark
  case h_18 => exact List.lookup_eq_none_iff.mpr (by simp_all [marks])
  all_goals rfl

theorem lookup_pair (c d : Char) : marks.lookup [c, d] = pairLexeme? c d := by
  rw [pairLexeme?.eq_def]
  split
  case h_14 => exact List.lookup_eq_none_iff.mpr (by simp_all [marks])
  all_goals rfl

theorem allows_mark : TokenClass.mark.Allows slice ↔ marks.lookup slice ≠ none := by
  simp only [TokenClass.Allows, ne_eq, List.lookup_eq_none_iff, List.mem_map, bne_iff_ne, not_forall,
    not_not, exists_prop]
  exact ⟨fun ⟨m, hm, heq⟩ => ⟨m, hm, heq.symm⟩, fun ⟨m, hm, heq⟩ => ⟨m, hm, heq.symm⟩⟩

theorem allows_char : TokenClass.mark.Allows [c] ↔ charLexeme? c ≠ none := by
  rw [allows_mark, lookup_char]

theorem allows_pair : TokenClass.mark.Allows [c, d] ↔ pairLexeme? c d ≠ none := by
  rw [allows_mark, lookup_pair]

/-- A mark is one character or two. -/
theorem rest_of_allows_mark (h : TokenClass.mark.Allows (c :: rest)) : rest = [] ∨ ∃ d, rest = [d] := by
  have hlength : ∀ s ∈ marks.map Prod.fst, s.length ≤ 2 := by decide
  match rest, hlength _ h with
  | [], _ => exact .inl rfl
  | [d], _ => exact .inr ⟨d, rfl⟩

theorem isNumberChar_of_isAlpha (h : c.isAlpha = true) : isNumberChar c = false := by
  rw [Bool.eq_false_iff]
  intro hn
  have := toNat_of_isAlpha h
  have := toNat_of_isNumberChar hn
  omega

theorem exists_cons_of_allows (h : k.Allows slice) : ∃ c rest, slice = c :: rest := by
  cases slice with
  | nil =>
    cases k with
    | mark => exact absurd rfl (allows_mark.mp h)
    | number | name => cases h
  | cons c rest => exact ⟨c, rest, rfl⟩

/-- A mark begins with no letter, digit or point. -/
theorem TokenClass.of_eq_mark (h : TokenClass.mark.Allows (c :: rest)) : TokenClass.of c = .mark := by
  have hnumber : isNumberChar c = false := by
    rw [Bool.eq_false_iff]
    intro hn
    obtain rfl | ⟨d, rfl⟩ := rest_of_allows_mark h
    · exact allows_char.mp h (charLexeme?_of_isNumberChar hn)
    · exact allows_pair.mp h (pairLexeme?_of_isNumberChar hn)
  have halpha : c.isAlpha = false := by
    rw [Bool.eq_false_iff]
    intro ha
    obtain rfl | ⟨d, rfl⟩ := rest_of_allows_mark h
    · exact allows_char.mp h (charLexeme?_of_isAlphanum (isAlphanum_of_isAlpha ha))
    · exact allows_pair.mp h (pairLexeme?_of_isAlphanum (isAlphanum_of_isAlpha ha))
  simp [TokenClass.of, hnumber, halpha]

/-- The first character of a text tells its class. -/
theorem TokenClass.Allows.of_eq (h : k.Allows (c :: rest)) : TokenClass.of c = k := by
  cases k with
  | mark => exact TokenClass.of_eq_mark h
  | number => simp [TokenClass.of, h.1]
  | name => simp [TokenClass.of, h.1, isNumberChar_of_isAlpha h.1]

theorem sliceLexeme?_eq (h : k.Allows slice) : sliceLexeme? slice = k.lexeme? slice := by
  obtain ⟨c, rest, rfl⟩ := exists_cons_of_allows h
  rw [sliceLexeme?, List.head?_cons, Option.bind_some, h.of_eq]

/-- No token has a blank in it. -/
theorem TokenClass.Allows.not_blank (h : k.Allows slice) : ∀ c ∈ slice, Text.isBlank c = false := by
  have hword {d : Char} (hd : d.isAlphanum = true) : Text.isBlank d = false :=
    (Bool.eq_false_iff).mpr fun hb => by simp [isAlphanum_of_isBlank hb] at hd
  have hfigure {d : Char} (hd : isNumberChar d = true) : Text.isBlank d = false :=
    (Bool.eq_false_iff).mpr fun hb => by simp [isNumberChar_of_isBlank hb] at hd
  have hmarks : ∀ s ∈ marks.map Prod.fst, ∀ c ∈ s, Text.isBlank c = false := by decide
  match k, slice, h with
  | .mark, slice, h => exact hmarks slice h
  | .number, c :: rest, h => exact List.forall_mem_cons.mpr ⟨hfigure h.1, fun d hd => hfigure (h.2 d hd)⟩
  | .name, c :: rest, h =>
    exact List.forall_mem_cons.mpr ⟨hword (isAlphanum_of_isAlpha h.1), fun d hd => hword (h.2 d hd)⟩

/-! ### The longest slice -/

/-- The longest text of a class at the front of a text. -/
structure Longest (k : TokenClass) (text slice : List Char) : Prop where
  front : slice <+: text
  allowed : k.Allows slice
  longest : ∀ s, s <+: text → k.Allows s → s.length ≤ slice.length

theorem Longest.length_pos (h : Longest k text slice) : 0 < slice.length := by
  obtain ⟨c, rest, rfl⟩ := exists_cons_of_allows h.allowed
  exact Nat.succ_pos _

theorem Longest.exists_cons (h : Longest k (c :: rest) slice) :
    ∃ more, slice = c :: more ∧ more <+: rest := by
  obtain ⟨d, more, rfl⟩ := exists_cons_of_allows h.allowed
  obtain ⟨rfl, hmore⟩ := List.cons_prefix_cons.mp h.front
  exact ⟨more, rfl, hmore⟩

/-- There is one slice at most, whatever its class. -/
theorem Longest.unique (h : Longest k (c :: rest) slice) (h' : Longest k' (c :: rest) slice') :
    k = k' ∧ slice = slice' := by
  obtain ⟨more, rfl, -⟩ := h.exists_cons
  obtain ⟨more', rfl, -⟩ := h'.exists_cons
  obtain rfl : k = k' := h.allowed.of_eq.symm.trans h'.allowed.of_eq
  have hlength : (c :: more).length = (c :: more').length :=
    Nat.le_antisymm (h'.longest _ h.front h.allowed) (h.longest _ h'.front h'.allowed)
  exact ⟨rfl, (List.prefix_of_prefix_length_le h.front h'.front hlength.le).eq_of_length hlength⟩

/-- A run of characters of one kind behind a first one is the longest where the kind ends. -/
theorem longest_run {first p : Char → Bool}
    (hk : ∀ d s, k.Allows (d :: s) ↔ first d = true ∧ ∀ e ∈ s, p e = true) (hc : first c = true) :
    Longest k (c :: rest) (c :: rest.takeWhile p) where
  front := List.cons_prefix_cons.mpr ⟨rfl, List.takeWhile_prefix p⟩
  allowed := (hk _ _).mpr ⟨hc, fun d hd => List.mem_takeWhile_imp hd⟩
  longest s hs hallowed := by
    obtain ⟨d, s, rfl⟩ := exists_cons_of_allows hallowed
    obtain ⟨-, t, rfl⟩ := List.cons_prefix_cons.mp hs
    rw [List.takeWhile_append_of_pos ((hk _ _).mp hallowed).2]
    simp

theorem longest_number (hc : isNumberChar c = true) :
    Longest .number (c :: rest) (c :: rest.takeWhile isNumberChar) :=
  longest_run (fun _ _ => Iff.rfl) hc

theorem longest_name (hc : c.isAlpha = true) :
    Longest .name (c :: rest) (c :: rest.takeWhile Char.isAlphanum) :=
  longest_run (fun _ _ => Iff.rfl) hc

/-- A mark of two characters is longer than any other. -/
theorem longest_pair (h : pairLexeme? c d ≠ none) : Longest .mark (c :: d :: rest) [c, d] where
  front := ⟨rest, rfl⟩
  allowed := allows_pair.mpr h
  longest s _ hallowed := by
    obtain ⟨a, s, rfl⟩ := exists_cons_of_allows hallowed
    obtain rfl | ⟨b, rfl⟩ := rest_of_allows_mark hallowed
    · exact Nat.le_succ _
    · exact Nat.le_refl _

/-- A mark of one character is the longest where it is not the first one of two. -/
theorem longest_char (h : charLexeme? c ≠ none) (hpair : rest.head?.bind (pairLexeme? c) = none) :
    Longest .mark (c :: rest) [c] where
  front := ⟨rest, rfl⟩
  allowed := allows_char.mpr h
  longest s hs hallowed := by
    obtain ⟨a, s, rfl⟩ := exists_cons_of_allows hallowed
    obtain rfl | ⟨b, rfl⟩ := rest_of_allows_mark hallowed
    · exact Nat.le_refl _
    · obtain ⟨rfl, t, rfl⟩ := List.cons_prefix_cons.mp hs
      exact absurd hpair (allows_pair.mp hallowed)

theorem exists_longest_of_scan (h : scan c rest = .ok (l, n)) :
    ∃ k slice, Longest k (c :: rest) slice := by
  rw [scan] at h
  split at h
  · next hfound =>
    obtain ⟨d, hd, hpair⟩ := Option.bind_eq_some_iff.mp hfound
    obtain ⟨tail, rfl⟩ := List.head?_eq_some_iff.mp hd
    exact ⟨_, _, longest_pair (Option.ne_none_iff_exists'.mpr ⟨_, hpair⟩)⟩
  · next hpair =>
    split at h
    · next hchar => exact ⟨_, _, longest_char (Option.ne_none_iff_exists'.mpr ⟨_, hchar⟩) hpair⟩
    · split at h
      · next hc => exact ⟨_, _, longest_number hc⟩
      · split at h
        · next hc => exact ⟨_, _, longest_name hc⟩
        · cases h

/-- The scanner reads the longest slice. -/
theorem scan_of_longest (h : Longest k (c :: rest) slice) :
    (scan c rest).toOption = (k.lexeme? slice).map fun l => (l, slice.length - 1) := by
  cases k with
  | mark =>
    obtain ⟨more, rfl, hmore⟩ := h.exists_cons
    rw [TokenClass.lexeme?]
    obtain rfl | ⟨d, rfl⟩ := rest_of_allows_mark h.allowed
    · -- a pair of characters would be a longer slice
      have hpair : rest.head?.bind (pairLexeme? c) = none := by
        by_contra hne
        obtain ⟨l, hl⟩ := Option.ne_none_iff_exists'.mp hne
        obtain ⟨d, hd, hpair⟩ := Option.bind_eq_some_iff.mp hl
        obtain ⟨tail, rfl⟩ := List.head?_eq_some_iff.mp hd
        have hlength := h.longest [c, d] ⟨tail, rfl⟩ (allows_pair.mpr (by simp [hpair]))
        simp at hlength
      obtain ⟨l, hl⟩ := Option.ne_none_iff_exists'.mp (allows_char.mp h.allowed)
      rw [scan, hpair, lookup_char]
      simp [hl, Except.toOption]
    · obtain ⟨tail, rfl⟩ := hmore
      obtain ⟨l, hl⟩ := Option.ne_none_iff_exists'.mp (allows_pair.mp h.allowed)
      rw [lookup_pair]
      simp [scan, hl, Except.toOption]
  | number =>
    have hc : isNumberChar c = true := by
      obtain ⟨more, rfl, -⟩ := h.exists_cons
      exact h.allowed.1
    obtain ⟨-, rfl⟩ := h.unique (longest_number hc)
    -- no pair begins with a digit or a point
    have hpair : rest.head?.bind (pairLexeme? c) = none :=
      Option.bind_eq_none_iff.mpr fun d _ => pairLexeme?_of_isNumberChar hc
    rw [scan, hpair, charLexeme?_of_isNumberChar hc]
    simp only [hc, if_true, TokenClass.lexeme?]
    cases numberLexeme (c :: rest.takeWhile isNumberChar) <;>
      simp [Except.toOption, bind, Except.bind, pure, Except.pure]
  | name =>
    have hc : c.isAlpha = true := by
      obtain ⟨more, rfl, -⟩ := h.exists_cons
      exact h.allowed.1
    obtain ⟨-, rfl⟩ := h.unique (longest_name hc)
    rw [scan_name rest hc]
    simp [TokenClass.lexeme?, Except.toOption]

/-- What the scanner takes is the longest slice of a class, and what it reads is what the slice says. -/
theorem scan_eq_ok_iff : scan c rest = .ok (l, n) ↔
    ∃ k slice, Longest k (c :: rest) slice ∧ sliceLexeme? slice = some l ∧ slice.length = n + 1 := by
  constructor
  · intro h
    obtain ⟨k, slice, hslice⟩ := exists_longest_of_scan h
    have hscan := scan_of_longest hslice
    rw [h] at hscan
    obtain ⟨l', hl, heq⟩ := Option.map_eq_some_iff.mp hscan.symm
    cases heq
    have := hslice.length_pos
    exact ⟨k, slice, hslice, (sliceLexeme?_eq hslice.allowed).trans hl, by omega⟩
  · rintro ⟨k, slice, hslice, hl, hlength⟩
    have hscan := scan_of_longest hslice
    rw [← sliceLexeme?_eq hslice.allowed, hl, Option.map_some, hlength] at hscan
    cases hs : scan c rest with
    | error fault =>
      rw [hs] at hscan
      cases hscan
    | ok r =>
      rw [hs] at hscan
      exact congrArg _ (Option.some.inj hscan)

end Classes

/-! ### Pieces of a text -/

/-- A token with the slice of a text that it is read from. -/
structure Piece where
  token : Token
  slice : List Char

/-- The offset behind a slice. -/
def Piece.stop (p : Piece) : Nat := p.token.pos + p.slice.length

/-- The text from `start` on is cut into slices, with nothing but blanks between them. -/
structure SlicedFrom (start : Nat) (text : List Char) (pieces : List Piece) : Prop where
  behind : ∀ p ∈ pieces, start ≤ p.token.pos
  increasing : pieces.Pairwise fun p q => p.token.pos < q.token.pos
  disjoint : pieces.Pairwise fun p q => p.stop ≤ q.token.pos
  /-- Every slice is the longest one of its class where its token begins. -/
  longest : ∀ p ∈ pieces, ∃ k, Longest k (text.drop p.token.pos) p.slice
  /-- What a token says is told by its slice. -/
  lexeme : ∀ p ∈ pieces, sliceLexeme? p.slice = some p.token.lexeme
  /-- A character that is in no slice is blank. -/
  blank : ∀ i c, start ≤ i → text[i]? = some c → (∀ p ∈ pieces, i < p.token.pos ∨ p.stop ≤ i) →
    Text.isBlank c = true

section Pieces

variable {start : Nat} {c : Char} {text : List Char} {pieces : List Piece} {ts : List Token}

/-- Every slice stands in the text. -/
theorem SlicedFrom.stop_le {p : Piece} (h : SlicedFrom start text pieces) (hp : p ∈ pieces) :
    p.token.pos < p.stop ∧ p.stop ≤ text.length := by
  obtain ⟨k, hslice⟩ := h.longest p hp
  have hlength : p.slice.length ≤ text.length - p.token.pos :=
    List.length_drop ▸ hslice.front.length_le
  have := hslice.length_pos
  rw [Piece.stop]
  omega

/-- Behind the end there are no slices. -/
theorem slicedFrom_end (h : text.length ≤ start) : SlicedFrom start text pieces ↔ pieces = [] := by
  constructor
  · intro hpieces
    refine List.eq_nil_iff_forall_not_mem.mpr fun p hp => ?_
    have hbehind : start ≤ p.token.pos := hpieces.behind p hp
    have hstop := hpieces.stop_le hp
    omega
  · rintro rfl
    refine ⟨List.forall_mem_nil _, .nil, .nil, List.forall_mem_nil _, List.forall_mem_nil _, ?_⟩
    intro i c hi hc _
    obtain ⟨hlt, -⟩ := List.getElem?_eq_some_iff.mp hc
    omega

/-- No slice begins at a blank. -/
theorem slicedFrom_blank (hc : text[start]? = some c) (hb : Text.isBlank c = true) :
    SlicedFrom start text pieces ↔ SlicedFrom (start + 1) text pieces := by
  constructor
  · intro h
    refine ⟨fun p hp => ?_, h.increasing, h.disjoint, h.longest, h.lexeme,
      fun i c hi => h.blank i c (Nat.le_of_succ_le hi)⟩
    refine Nat.lt_of_le_of_ne (h.behind p hp) fun heq => ?_
    obtain ⟨k, hslice⟩ := h.longest p hp
    obtain ⟨d, rest, hrest⟩ := exists_cons_of_allows hslice.allowed
    obtain ⟨tail, htext⟩ := hslice.front
    have hd : text[start]? = some d := by
      rw [heq, ← List.head?_drop, ← htext, hrest]
      rfl
    obtain rfl : c = d := Option.some.inj (hc.symm.trans hd)
    have hvisible : Text.isBlank c = false :=
      hslice.allowed.not_blank c (hrest ▸ List.mem_cons_self)
    rw [hb] at hvisible
    cases hvisible
  · intro h
    refine ⟨fun p hp => Nat.le_of_succ_le (h.behind p hp), h.increasing, h.disjoint, h.longest,
      h.lexeme, fun i d hi hd hout => ?_⟩
    obtain rfl | hlt := Nat.eq_or_lt_of_le hi
    · rwa [← Option.some.inj (hc.symm.trans hd)]
    · exact h.blank i d hlt hd hout

/-- A slice begins at any other character. -/
theorem slicedFrom_token (hc : text[start]? = some c) (hb : ¬Text.isBlank c = true) :
    SlicedFrom start text pieces ↔ ∃ k l slice more, pieces = ⟨⟨l, start⟩, slice⟩ :: more ∧
      Longest k (text.drop start) slice ∧ sliceLexeme? slice = some l ∧
      SlicedFrom (start + slice.length) text more := by
  constructor
  · intro h
    cases pieces with
    | nil => exact absurd (h.blank start c (Nat.le_refl _) hc (List.forall_mem_nil _)) hb
    | cons p more =>
      obtain ⟨⟨l, pos⟩, slice⟩ := p
      obtain ⟨hbehind, hdisjoint⟩ := List.pairwise_cons.mp h.disjoint
      have hpos : pos = start := by
        by_contra hne
        -- the character would be in front of all slices
        have hlt : start < pos := Nat.lt_of_le_of_ne (h.behind _ List.mem_cons_self) (Ne.symm hne)
        refine hb (h.blank start c (Nat.le_refl _) hc (List.forall_mem_cons.mpr ⟨.inl hlt, ?_⟩))
        exact fun q hq => .inl (Nat.lt_of_lt_of_le (Nat.lt_add_right _ hlt) (hbehind q hq))
      subst hpos
      obtain ⟨k, hslice⟩ := h.longest _ List.mem_cons_self
      refine ⟨k, l, slice, more, rfl, hslice, h.lexeme _ List.mem_cons_self, hbehind,
        (List.pairwise_cons.mp h.increasing).2, hdisjoint, fun q hq => ?_, fun q hq => ?_, ?_⟩
      · exact h.longest q (List.mem_cons_of_mem _ hq)
      · exact h.lexeme q (List.mem_cons_of_mem _ hq)
      · intro i d hi hd hout
        refine h.blank i d (Nat.le_of_add_right_le hi) hd (List.forall_mem_cons.mpr ⟨.inr hi, hout⟩)
  · rintro ⟨k, l, slice, more, rfl, hslice, hl, h⟩
    have hless : ∀ q ∈ more, start < q.token.pos := fun q hq =>
      Nat.lt_of_lt_of_le (Nat.lt_add_of_pos_right hslice.length_pos) (h.behind q hq)
    refine ⟨?_, .cons hless h.increasing, .cons h.behind h.disjoint, ?_, ?_, ?_⟩
    · exact List.forall_mem_cons.mpr ⟨Nat.le_refl _, fun q hq => Nat.le_of_lt (hless q hq)⟩
    · exact List.forall_mem_cons.mpr ⟨⟨k, hslice⟩, h.longest⟩
    · exact List.forall_mem_cons.mpr ⟨hl, h.lexeme⟩
    · intro i d hi hd hout
      obtain ⟨hfirst, hmore⟩ := List.forall_mem_cons.mp hout
      exact h.blank i d (hfirst.resolve_left (Nat.not_lt.mpr hi)) hd hmore

theorem drop_eq_cons (hc : text[start]? = some c) : text.drop start = c :: text.drop (start + 1) := by
  obtain ⟨hlt, rfl⟩ := List.getElem?_eq_some_iff.mp hc
  exact List.drop_eq_getElem_cons hlt

/-- Where a character is not blank, the longest slice is read, and then what follows it. -/
theorem tokensFrom_slice_iff (hc : text[start]? = some c) (hb : ¬Text.isBlank c = true) :
    tokensFrom start (text.drop start) = .ok ts ↔ ∃ k l slice more,
      Longest k (text.drop start) slice ∧ sliceLexeme? slice = some l ∧
      tokensFrom (start + slice.length) (text.drop (start + slice.length)) = .ok more ∧
      ⟨l, start⟩ :: more = ts := by
  -- the scanner counts from behind the first character, slices from the start of the text
  have hdrop (n : Nat) : (text.drop (start + 1)).drop n = text.drop (start + (n + 1)) := by
    rw [List.drop_drop]
    congr 1
    omega
  rw [drop_eq_cons hc, tokensFrom, if_neg hb]
  constructor
  · intro h
    split at h
    · cases h
    · next l n hs =>
      obtain ⟨k, slice, hslice, hl, hlength⟩ := scan_eq_ok_iff.mp hs
      obtain ⟨more, hmore, hts⟩ := bind_eq_ok.mp h
      rw [hdrop, Nat.add_assoc, ← hlength] at hmore
      exact ⟨k, l, slice, more, hslice, hl, hmore, Except.ok.inj hts⟩
  · rintro ⟨k, l, slice, more, hslice, hl, hmore, rfl⟩
    obtain ⟨n, hlength⟩ := Nat.exists_eq_succ_of_ne_zero hslice.length_pos.ne'
    rw [scan_eq_ok_iff.mpr ⟨k, slice, hslice, hl, hlength⟩]
    refine bind_eq_ok.mpr ⟨more, ?_, rfl⟩
    rw [hdrop, Nat.add_assoc, ← Nat.succ_eq_add_one n, ← hlength]
    exact hmore

/-- The tokens of a text are those of the pieces that it can be cut into, and there is one way at most
to cut it. -/
theorem tokensFrom_eq_ok_iff : tokensFrom start (text.drop start) = .ok ts ↔
    ∃ pieces, SlicedFrom start text pieces ∧ pieces.map Piece.token = ts := by
  induction hn : text.length - start using Nat.strongRecOn generalizing start ts with
  | ind n ih =>
    subst hn
    cases hc : text[start]? with
    | none =>
      have hend : text.length ≤ start := List.getElem?_eq_none_iff.mp hc
      simp [List.drop_eq_nil_iff.mpr hend, tokensFrom, slicedFrom_end hend]
    | some c =>
      have hlt : start < text.length := (List.getElem?_eq_some_iff.mp hc).1
      by_cases hb : Text.isBlank c = true
      · rw [drop_eq_cons hc, tokensFrom, if_pos hb, ih _ (by omega) rfl]
        simp only [slicedFrom_blank hc hb]
      · rw [tokensFrom_slice_iff hc hb]
        simp only [slicedFrom_token hc hb]
        constructor
        · rintro ⟨k, l, slice, more, hslice, hl, hmore, rfl⟩
          have := hslice.length_pos
          obtain ⟨pieces, hpieces, rfl⟩ := (ih _ (by omega) rfl).mp hmore
          exact ⟨_, ⟨k, l, slice, pieces, rfl, hslice, hl, hpieces⟩, rfl⟩
        · rintro ⟨_, ⟨k, l, slice, more, rfl, hslice, hl, hmore⟩, rfl⟩
          have := hslice.length_pos
          exact ⟨k, l, slice, _, hslice, hl, (ih _ (by omega) rfl).mpr ⟨more, hmore, rfl⟩, rfl⟩

theorem tokens_eq_ok_iff : tokens text = .ok ts ↔
    ∃ pieces, SlicedFrom 0 text pieces ∧ pieces.map Piece.token = ts :=
  tokensFrom_eq_ok_iff

end Pieces

/-! ### Blanks between texts -/

section Blanks

variable {u v w text' : List Char} {pieces : List Piece}

/-- Where blanks stand between two texts, each is read on its own: the second one at offsets behind the
first, which fails first if both do. -/
theorem tokens_append_blanks (hne : w ≠ []) (h : ∀ c ∈ w, Text.isBlank c = true) :
    tokens (u ++ w ++ v) = (do
      let front ← tokens u
      let back ← shifted (u ++ w).length (tokens v)
      return front ++ back) := by
  rw [tokens, tokensFrom_append (blanks_apart hne h), tokensFrom_append_blanks h,
    tokensFrom_eq_shifted (0 + _), Nat.zero_add]
  rfl

/-- Slices in a row, with blanks between any two of them. -/
inductive Spaced : List (List Char) → List Char → Prop where
  | nil : Spaced [] []
  | single (slice : List Char) : Spaced [slice] slice
  | cons {slices : List (List Char)} {text : List Char} (slice gap : List Char) (hne : gap ≠ [])
    (hgap : ∀ c ∈ gap, Text.isBlank c = true) (h : Spaced slices text) :
    Spaced (slice :: slices) (slice ++ gap ++ text)

/-- A slice on its own is read as its token. -/
theorem tokens_slice {k : TokenClass} {slice : List Char} {l : Lexeme} (h : k.Allows slice)
    (hl : sliceLexeme? slice = some l) (offset : Nat) : tokensFrom offset slice = .ok [⟨l, offset⟩] := by
  have hslice : Longest k slice slice := ⟨List.prefix_rfl, h, fun s hs _ => hs.length_le⟩
  obtain ⟨c, rest, rfl⟩ := exists_cons_of_allows h
  have hb : ¬Text.isBlank c = true :=
    (Bool.not_eq_true _).mpr (h.not_blank c List.mem_cons_self)
  have hs : scan c rest = .ok (l, rest.length) := scan_eq_ok_iff.mpr ⟨k, _, hslice, hl, rfl⟩
  rw [tokensFrom, if_neg hb, hs]
  simp only [List.drop_length]
  rw [tokensFrom]
  rfl

/-- The slices of a text are read as their tokens, whatever blanks stand between them. -/
theorem lexemes_spaced {start : Nat} {text : List Char} (h : SlicedFrom start text pieces)
    (hspaced : Spaced (pieces.map Piece.slice) text') :
    lexemes text' = some (pieces.map fun p => p.token.lexeme) := by
  have hread : ∀ p ∈ pieces, lexemes p.slice = some [p.token.lexeme] := by
    intro p hp
    obtain ⟨k, hslice⟩ := h.longest p hp
    rw [lexemes, tokens, tokens_slice hslice.allowed (h.lexeme p hp)]
    rfl
  clear h
  generalize hslices : pieces.map Piece.slice = slices at hspaced
  induction hspaced generalizing pieces with
  | nil =>
    rw [List.map_eq_nil_iff.mp hslices]
    exact lexemes_nil
  | single slice =>
    obtain ⟨p, rfl, rfl⟩ := List.map_eq_singleton_iff.mp hslices
    exact hread p (List.mem_singleton_self p)
  | cons slice gap hne hgap _ ih =>
    obtain ⟨p, more, rfl, rfl, rfl⟩ := List.map_eq_cons_iff.mp hslices
    obtain ⟨hp, hmore⟩ := List.forall_mem_cons.mp hread
    have hfront : lexemes (p.slice ++ gap) = some [p.token.lexeme] := by
      rw [lexemes, tokens, tokensFrom_append_blanks hgap]
      exact hp
    exact lexemes_append_some (blanks_apart hne hgap) hfront (ih hmore rfl)

/-- Reading a text loses nothing but blanks: the tokens are those of the one way to cut the text into
longest slices with blanks between them; blanks cut a text into texts that are read on their own; and
the slices are read again as the same lexemes, whatever blanks stand between them. -/
theorem tokens_lossless :
    (∀ text ts, tokens text = .ok ts ↔
      ∃ pieces, SlicedFrom 0 text pieces ∧ pieces.map Piece.token = ts) ∧
    (∀ u w v : List Char, w ≠ [] → (∀ c ∈ w, Text.isBlank c = true) →
      tokens (u ++ w ++ v) = (do
        let front ← tokens u
        let back ← shifted (u ++ w).length (tokens v)
        return front ++ back)) ∧
    ∀ text pieces text', SlicedFrom 0 text pieces → Spaced (pieces.map Piece.slice) text' →
      lexemes text' = some (pieces.map fun p => p.token.lexeme) := by
  refine ⟨fun text ts => tokens_eq_ok_iff, fun u w v hne h => ?_, fun text pieces text' h hspaced => ?_⟩
  · exact tokens_append_blanks hne h
  · exact lexemes_spaced h hspaced

/-- A blank between two signs that would be a step without it, in front of a number and a mark of two
characters: the text is cut into slices, both sides of the blank are read on their own, and the slices
are read again with other blanks between them. -/
theorem splitStep_lossless :
    [' '] ≠ [] ∧ (∀ c ∈ [' '], Text.isBlank c = true) ∧
      SlicedFrom 0 "n+ +.5**b".toList [⟨⟨.variable "n", 0⟩, ['n']⟩, ⟨⟨.operator .add, 1⟩, ['+']⟩,
        ⟨⟨.operator .add, 3⟩, ['+']⟩, ⟨⟨.number 0.5, 4⟩, ['.', '5']⟩,
        ⟨⟨.operator .pow, 6⟩, ['*', '*']⟩, ⟨⟨.variable "b", 8⟩, ['b']⟩] ∧
      (do
        let front ← tokens "n+".toList
        let back ← shifted ("n+".toList ++ [' ']).length (tokens "+.5**b".toList)
        return front ++ back) = .ok [⟨.variable "n", 0⟩, ⟨.operator .add, 1⟩, ⟨.operator .add, 3⟩,
          ⟨.number 0.5, 4⟩, ⟨.operator .pow, 6⟩, ⟨.variable "b", 8⟩] ∧
      Spaced [['n'], ['+'], ['+'], ['.', '5'], ['*', '*'], ['b']] "n \t+ + .5 ** b".toList ∧
      lexemes "n \t+ + .5 ** b".toList = some [.variable "n", .operator .add, .operator .add,
        .number 0.5, .operator .pow, .variable "b"] := by
  have hne : [' '] ≠ [] := List.cons_ne_nil _ _
  have hblank : ∀ c ∈ [' '], Text.isBlank c = true := by decide
  have htext : "n+ +.5**b".toList = ['n', '+', ' ', '+', '.', '5', '*', '*', 'b'] := by decide
  have hhalf : sliceLexeme? ['.', '5'] = some (.number 0.5) := by
    have hread : Decimal.readLiteral ['.', '5'] = 0.5 := Decimal.code_inj (by decide +kernel)
    rw [← hread]
    rfl
  have hsliced : SlicedFrom 0 "n+ +.5**b".toList [⟨⟨.variable "n", 0⟩, ['n']⟩,
      ⟨⟨.operator .add, 1⟩, ['+']⟩, ⟨⟨.operator .add, 3⟩, ['+']⟩, ⟨⟨.number 0.5, 4⟩, ['.', '5']⟩,
      ⟨⟨.operator .pow, 6⟩, ['*', '*']⟩, ⟨⟨.variable "b", 8⟩, ['b']⟩] := by
    -- slice by slice; between the signs the blank is passed over
    rw [htext]
    refine (slicedFrom_token rfl (by decide)).mpr ⟨_, _, _, _, rfl, longest_name rfl, rfl, ?_⟩
    refine (slicedFrom_token rfl (by decide)).mpr
      ⟨_, _, _, _, rfl, longest_char (by decide) (by decide), rfl, ?_⟩
    refine (slicedFrom_blank rfl (by decide)).mpr ?_
    refine (slicedFrom_token rfl (by decide)).mpr
      ⟨_, _, _, _, rfl, longest_char (by decide) (by decide), rfl, ?_⟩
    refine (slicedFrom_token rfl (by decide)).mpr ⟨_, _, _, _, rfl, longest_number rfl, hhalf, ?_⟩
    refine (slicedFrom_token rfl (by decide)).mpr
      ⟨_, _, _, _, rfl, longest_pair (by decide), rfl, ?_⟩
    refine (slicedFrom_token rfl (by decide)).mpr ⟨_, _, _, _, rfl, longest_name rfl, rfl, ?_⟩
    exact (slicedFrom_end (by decide)).mpr rfl
  have hspaced : Spaced [['n'], ['+'], ['+'], ['.', '5'], ['*', '*'], ['b']]
      "n \t+ + .5 ** b".toList :=
    .cons _ [' ', '\t'] (by decide) (by decide) <| .cons _ [' '] hne hblank <|
      .cons _ [' '] hne hblank <| .cons _ [' '] hne hblank <| .cons _ [' '] hne hblank <| .single _
  refine ⟨hne, hblank, hsliced, ?_, hspaced, tokens_lossless.2.2 _ _ _ hsliced hspaced⟩
  rw [← tokens_lossless.2.1 _ _ _ hne hblank]
  exact (tokens_lossless.1 _ _).mpr ⟨_, hsliced, rfl⟩

end Blanks

end FieldLang
