/-
Pairs of round brackets in a text.

* `Paired` : the round brackets of a text belong to each other;
* `Unbracketed` : a text without one pair of round brackets;
* `Unbracketed.append_cases`, `Unbracketed.brackets_cases`, `Unbracketed.call_cases` : which pair it may
  be;
* `Unbracketed.of_trimLines` : a pair in a text whose lines were trimmed.

Design notes: a pair of brackets is a text between two brackets that is paired. In a text that is put
together from paired ones, every pair is in one of them, because a bracket that is opened in the first
one is closed there.
-/
import FieldLang.Proofs.Layout.Rendering
import FieldLang.Proofs.Syntax.Lexing
import Mathlib.Algebra.Ring.Int.Defs
import Mathlib.Data.List.Basic

namespace FieldLang

/-! ### Depth -/

/-- How many more round brackets a text opens than it closes. -/
def roundDepth (t : List Char) : Int :=
  (t.map fun c => if c = '(' then 1 else if c = ')' then -1 else 0).sum

/-- A text closes all round brackets that it opens, and none before it opens it. -/
structure Paired (t : List Char) : Prop where
  closed : roundDepth t = 0
  opened : ∀ u v, t = u ++ v → 0 ≤ roundDepth u

section Depth

variable {t u v : List Char} {c : Char}

@[simp]
theorem roundDepth_nil : roundDepth [] = 0 := rfl

@[simp]
theorem roundDepth_append : roundDepth (u ++ v) = roundDepth u + roundDepth v := by simp [roundDepth]

@[simp]
theorem roundDepth_lparen : roundDepth ('(' :: t) = roundDepth t + 1 := by
  simp [roundDepth, Int.add_comm]

@[simp]
theorem roundDepth_rparen : roundDepth (')' :: t) = roundDepth t - 1 := by
  simp [roundDepth]
  omega

theorem roundDepth_of_not_mem (hl : '(' ∉ t) (hr : ')' ∉ t) : roundDepth t = 0 := by
  induction t with
  | nil => rfl
  | cons c t ih =>
    obtain ⟨hc, hl⟩ := not_or.mp (mt List.mem_cons.mpr hl)
    obtain ⟨hc', hr⟩ := not_or.mp (mt List.mem_cons.mpr hr)
    simpa [roundDepth, Ne.symm hc, Ne.symm hc'] using ih hl hr

/-- A text without round brackets is paired. -/
theorem paired_of_not_mem (hl : '(' ∉ t) (hr : ')' ∉ t) : Paired t := by
  refine ⟨roundDepth_of_not_mem hl hr, ?_⟩
  rintro u v rfl
  refine Int.le_of_eq (roundDepth_of_not_mem ?_ ?_).symm
  · exact fun h => hl (List.mem_append_left _ h)
  · exact fun h => hr (List.mem_append_left _ h)

theorem Paired.append (hu : Paired u) (hv : Paired v) : Paired (u ++ v) := by
  refine ⟨by rw [roundDepth_append, hu.closed, hv.closed]; rfl, fun a b h => ?_⟩
  rcases List.append_eq_append_iff.mp h with ⟨c, rfl, hc⟩ | ⟨c, hc, -⟩
  · have := hv.opened c b hc
    rw [roundDepth_append, hu.closed]
    omega
  · exact hu.opened a c hc

/-- A paired text in round brackets is paired. -/
theorem Paired.brackets (h : Paired t) : Paired ('(' :: (t ++ [')'])) := by
  have hclosed : roundDepth ('(' :: (t ++ [')'])) = 0 := by
    rw [roundDepth_lparen, roundDepth_append, h.closed]
    rfl
  refine ⟨hclosed, fun a b hab => ?_⟩
  cases a with
  | nil => exact Int.le_refl _
  | cons c a =>
    obtain ⟨rfl, htail⟩ := List.cons.inj hab
    rw [roundDepth_lparen]
    rcases List.append_eq_append_iff.mp htail with ⟨d, rfl, hd⟩ | ⟨d, hd, -⟩
    · cases d with
      | nil => simp [h.closed]
      | cons e d =>
        obtain ⟨rfl, hnil⟩ := List.cons.inj hd
        obtain ⟨rfl, -⟩ := List.append_eq_nil_iff.mp hnil.symm
        simp [h.closed]
    · have := h.opened a d hd
      omega

end Depth

/-! ### Pairs -/

/-- The second text is the first one without a pair of round brackets that belong to each other and do
not follow a letter or a digit, as the brackets of a call do. -/
def Unbracketed (t t' : List Char) : Prop :=
  ∃ u mid v, t = u ++ '(' :: (mid ++ ')' :: v) ∧ t' = u ++ (mid ++ v) ∧ Paired mid ∧
    ∀ c, u.getLast? = some c → c.isAlphanum = false

section Pairs

variable {t t' t₁ t₂ x : List Char}

/-- A text without opening brackets has no pair. -/
theorem not_unbracketed_of_not_mem (h : '(' ∉ t) : ¬Unbracketed t t' := by
  rintro ⟨u, mid, v, rfl, -⟩
  exact h (by simp)

/-- Without a pair, a text begins as it did, unless it begins with the pair. -/
theorem Unbracketed.exists_cons {c : Char} (h : Unbracketed (c :: t) t') (hc : c ≠ '(') :
    ∃ rest, t' = c :: rest := by
  obtain ⟨u, mid, v, ht, rfl, -⟩ := h
  cases u with
  | nil => exact absurd (List.cons.inj ht).1 hc
  | cons d u =>
    obtain rfl := (List.cons.inj ht).1
    exact ⟨_, rfl⟩

/-- Each pair of a text in two paired parts is in one of them. -/
theorem Unbracketed.append_cases (h₁ : Paired t₁) (h : Unbracketed (t₁ ++ t₂) t') :
    (∃ t₁', Unbracketed t₁ t₁' ∧ t' = t₁' ++ t₂) ∨ ∃ t₂', Unbracketed t₂ t₂' ∧ t' = t₁ ++ t₂' := by
  obtain ⟨u, mid, v, ht, rfl, hmid, hu⟩ := h
  rcases List.append_eq_append_iff.mp ht with ⟨a, rfl, ha⟩ | ⟨a, rfl, ha⟩
  · refine .inr ⟨a ++ (mid ++ v), ⟨a, mid, v, ha, rfl, hmid, fun c hc => ?_⟩, by simp⟩
    exact hu c (by rw [List.getLast?_append, hc]; rfl)
  · have hu₁ := h₁.opened u a rfl
    have hclosed := h₁.closed
    cases a with
    | nil =>
      refine .inr ⟨mid ++ v, ⟨[], mid, v, ha.symm, rfl, hmid, by simp⟩, by simp⟩
    | cons c a =>
      obtain ⟨rfl, hrest⟩ := List.cons.inj ha
      rw [roundDepth_append, roundDepth_lparen] at hclosed
      -- the bracket is opened in the first part, which closes it
      rcases List.append_eq_append_iff.mp hrest with ⟨b, rfl, hb⟩ | ⟨b, rfl, -⟩
      · rw [roundDepth_append, hmid.closed] at hclosed
        cases b with
        | nil =>
          rw [roundDepth_nil] at hclosed
          omega
        | cons d b =>
          obtain ⟨rfl, rfl⟩ := List.cons.inj hb
          exact .inl ⟨u ++ (mid ++ b), ⟨u, mid, b, rfl, rfl, hmid, hu⟩, by simp⟩
      · have := hmid.opened a b rfl
        omega

/-- A pair in a paired text with a closing bracket behind it is in the paired text. -/
theorem Paired.of_closing {u mid v : List Char} (hx : Paired x) (hmid : Paired mid)
    (h : x ++ [')'] = u ++ '(' :: (mid ++ ')' :: v)) :
    ∃ v', v = v' ++ [')'] ∧ x = u ++ '(' :: (mid ++ ')' :: v') := by
  rcases List.eq_nil_or_concat' v with rfl | ⟨v', d, rfl⟩
  · have h : x ++ [')'] = (u ++ '(' :: mid) ++ [')'] := by simpa using h
    obtain rfl := List.append_cancel_right h
    have hu := hx.opened u _ rfl
    have hclosed := hx.closed
    rw [roundDepth_append, roundDepth_lparen, hmid.closed] at hclosed
    omega
  · have h : x ++ [')'] = (u ++ '(' :: (mid ++ ')' :: v')) ++ [d] := by simpa using h
    obtain ⟨rfl, hd⟩ := List.append_inj' h rfl
    obtain rfl := (List.cons.inj hd).1
    exact ⟨v', rfl, rfl⟩

/-- Each pair of a text in brackets is the outer one, or one of the text. -/
theorem Unbracketed.brackets_cases (hx : Paired x) (h : Unbracketed ('(' :: (x ++ [')'])) t') :
    t' = x ∨ ∃ x', Unbracketed x x' ∧ t' = '(' :: (x' ++ [')']) := by
  obtain ⟨u, mid, v, ht, rfl, hmid, hu⟩ := h
  cases u with
  | nil =>
    have ht : x ++ [')'] = mid ++ ')' :: v := (List.cons.inj ht).2
    left
    rcases List.eq_nil_or_concat' v with rfl | ⟨v', d, rfl⟩
    · simpa using (List.append_cancel_right ht).symm
    -- a bracket behind the pair would be closed before it is opened
    · have ht : x ++ [')'] = (mid ++ ')' :: v') ++ [d] := by simpa using ht
      obtain ⟨rfl, -⟩ := List.append_inj' ht rfl
      have := hx.opened (mid ++ [')']) v' (by simp)
      simp [hmid.closed] at this
  | cons c u =>
    obtain ⟨rfl, htail⟩ := List.cons.inj ht
    obtain ⟨v', rfl, rfl⟩ := hx.of_closing hmid htail
    refine .inr ⟨u ++ (mid ++ v'), ⟨u, mid, v', rfl, rfl, hmid, fun d hd => ?_⟩, by simp⟩
    exact hu d (by rw [List.getLast?_cons, hd]; rfl)

/-- Each pair of a call is one of its arguments. -/
theorem Unbracketed.call_cases {name : List Char} (hname : ∀ c ∈ name, c.isAlphanum = true)
    (hne : name ≠ []) (hx : Paired x) (h : Unbracketed (name ++ '(' :: (x ++ [')'])) t') :
    ∃ x', Unbracketed x x' ∧ t' = name ++ '(' :: (x' ++ [')']) := by
  obtain ⟨u, mid, v, ht, rfl, hmid, hu⟩ := h
  have hname' : u ≠ name := by
    rintro rfl
    have hlast := hname _ (List.getLast_mem hne)
    rw [hu _ (List.getLast?_eq_some_getLast hne)] at hlast
    cases hlast
  rcases List.append_eq_append_iff.mp ht with ⟨a, rfl, ha⟩ | ⟨a, rfl, ha⟩
  · cases a with
    | nil => exact absurd (List.append_nil _) hname'
    | cons c a =>
      obtain ⟨rfl, htail⟩ := List.cons.inj ha
      obtain ⟨v', rfl, rfl⟩ := hx.of_closing hmid htail
      refine ⟨a ++ (mid ++ v'), ⟨a, mid, v', rfl, rfl, hmid, fun d hd => ?_⟩, by simp⟩
      exact hu d (by rw [List.getLast?_append, List.getLast?_cons, hd]; rfl)
  · cases a with
    | nil => exact absurd (List.append_nil _).symm hname'
    | cons c a =>
      obtain ⟨rfl, -⟩ := List.cons.inj ha
      exact absurd (hname '(' (by simp)) (by decide)

end Pairs

/-! ### Trimmed lines -/

section Trimming

open Layout Text

variable {t t' u x x' y : List Char} {c : Char}

theorem trimEnd_append_trimEnd (x y : List Char) : trimEnd (x ++ trimEnd y) = trimEnd (x ++ y) := by
  obtain ⟨blanks, hy, hblanks⟩ := exists_trimEnd y
  have hback : ∀ z, trimEnd (z ++ blanks) = trimEnd z := fun z => by
    have hreverse : ∀ c ∈ blanks.reverse, isBlank c = true := fun c hc =>
      hblanks c (List.mem_reverse.mp hc)
    rw [trimEnd, List.reverse_append, List.dropWhile_append_of_pos hreverse, trimEnd]
  conv_rhs => rw [hy, ← List.append_assoc, hback]

/-- Where trimmed lines agree behind every part of a line, they agree behind every text. -/
theorem trimLines_append_congr (h : ∀ line, '\n' ∉ line → trimLines (line ++ x) = trimLines (line ++ y))
    (u : List Char) : trimLines (u ++ x) = trimLines (u ++ y) := by
  induction u using lines_induction with
  | last line hline => exact h line hline
  | more line rest hline ih =>
    rw [List.append_assoc, List.append_assoc, List.cons_append, List.cons_append,
      trimLines_append hline, trimLines_append hline, ih]

/-- Trimming what stands behind a text first changes nothing. -/
theorem trimLines_append_trimLines (x y : List Char) :
    trimLines (x ++ trimLines y) = trimLines (x ++ y) := by
  refine trimLines_append_congr (fun front hfront => ?_) x
  have hmem : ∀ {line : List Char}, '\n' ∉ line → '\n' ∉ front ++ line := fun hline => by
    simp [hfront, hline]
  induction y using lines_induction generalizing front with
  | last line hline =>
    rw [trimLines_of_not_mem hline, trimLines_of_not_mem (hmem (not_mem_trimEnd hline)),
      trimLines_of_not_mem (hmem hline), trimEnd_append_trimEnd]
  | more line rest hline ih =>
    have hrest := ih [] (by simp) fun hline => hline
    rw [List.nil_append, List.nil_append] at hrest
    rw [trimLines_append hline, ← List.append_assoc, ← List.append_assoc,
      trimLines_append (hmem (not_mem_trimEnd hline)), trimLines_append (hmem hline),
      trimEnd_append_trimEnd, hrest]

/-- The second text is the first one with its lines trimmed, but for the last one, which something
follows. -/
structure TrimmedFront (x' x : List Char) : Prop where
  trims : ∀ w, trimLines (x' ++ w) = trimLines (x ++ w)
  visible : x'.filter (!isBlank ·) = x.filter (!isBlank ·)
  last : ∀ d, x'.getLast? = some d → isBlank d = false → x.getLast? = some d

theorem TrimmedFront.refl (x : List Char) : TrimmedFront x x := ⟨fun _ => rfl, rfl, fun _ h _ => h⟩

/-- A line in front is trimmed. -/
theorem TrimmedFront.line (h : TrimmedFront x' x) {line : List Char} (hline : '\n' ∉ line) :
    TrimmedFront (line ++ '\n' :: x') (trimEnd line ++ '\n' :: x) := by
  refine ⟨fun w => ?_, ?_, fun d hd hblank => ?_⟩
  · have htrim := trimEnd_append_trimEnd [] line
    rw [List.nil_append, List.nil_append] at htrim
    rw [List.append_assoc, List.append_assoc, List.cons_append, List.cons_append,
      trimLines_append hline, trimLines_append (not_mem_trimEnd hline), htrim, h.trims]
  · obtain ⟨blanks, hl, hblanks⟩ := exists_trimEnd line
    have hnone : blanks.filter (!isBlank ·) = [] := List.filter_eq_nil_iff.mpr (by simpa using hblanks)
    conv_lhs => rw [hl]
    simp only [List.filter_append, List.filter_cons, hnone, h.visible, List.append_nil]
  · rw [List.getLast?_append, List.getLast?_cons] at hd ⊢
    cases hlast : x'.getLast? with
    | none =>
      rw [hlast] at hd
      cases hd
      exact absurd hblank (by decide)
    | some e =>
      rw [hlast] at hd
      cases hd
      rw [h.last _ hlast hblank]
      rfl

/-- A character that is left where the lines of a text are trimmed stood in it. -/
theorem trimLines_cases (h : trimLines t = x ++ c :: y) (hc : isBlank c = false) :
    ∃ x' y', t = x' ++ c :: y' ∧ TrimmedFront x' x ∧ trimLines y' = y := by
  have hbreak : c ≠ '\n' := by
    rintro rfl
    cases hc
  induction t using lines_induction generalizing x y with
  | last line hline =>
    rw [trimLines_of_not_mem hline] at h
    obtain ⟨blanks, hl, hblanks⟩ := exists_trimEnd line
    rw [h, List.append_assoc, List.cons_append] at hl
    refine ⟨x, y ++ blanks, hl, .refl x, ?_⟩
    rw [hl, trimEnd_append_cons x hc] at h
    rw [trimLines_of_not_mem fun hm => hline (hl ▸ by simp [hm])]
    exact (List.cons.inj (List.append_cancel_left h)).2
  | more line rest hline ih =>
    rw [trimLines_append hline] at h
    -- the character stands behind the line break or in front of it
    rcases List.append_eq_append_iff.mp h with ⟨a, rfl, ha⟩ | ⟨a, hline', ha⟩
    · cases a with
      | nil => exact absurd (List.cons.inj ha).1.symm hbreak
      | cons d a =>
        obtain ⟨rfl, hrest⟩ := List.cons.inj ha
        obtain ⟨x', y', rfl, hfront, hy⟩ := ih hrest
        exact ⟨line ++ '\n' :: x', y', by simp, hfront.line hline, hy⟩
    · cases a with
      | nil => exact absurd (List.cons.inj ha).1 hbreak
      | cons d a =>
        obtain ⟨rfl, rfl⟩ := List.cons.inj ha
        obtain ⟨blanks, hl, hblanks⟩ := exists_trimEnd line
        rw [hline', List.append_assoc, List.cons_append] at hl
        refine ⟨x, a ++ blanks ++ '\n' :: rest, by simp [hl], .refl x, ?_⟩
        rw [hl, trimEnd_append_cons x hc] at hline'
        rw [trimLines_append fun hm => hline (hl ▸ by simpa using .inr (.inr (by simpa using hm))),
          (List.cons.inj (List.append_cancel_left hline')).2]
        rfl

theorem roundDepth_visible (t : List Char) : roundDepth (t.filter (!isBlank ·)) = roundDepth t := by
  induction t with
  | nil => rfl
  | cons c t ih =>
    cases hc : isBlank c with
    | true =>
      have hl : c ≠ '(' := by
        rintro rfl
        cases hc
      have hr : c ≠ ')' := by
        rintro rfl
        cases hc
      simpa [hc, roundDepth, hl, hr] using ih
    | false => simpa [hc, roundDepth] using ih

/-- Round brackets are paired whatever blanks stand between them. -/
theorem Paired.of_visible (h : Paired x) (hx : x'.filter (!isBlank ·) = x.filter (!isBlank ·)) :
    Paired x' := by
  refine ⟨by rw [← roundDepth_visible, hx, roundDepth_visible, h.closed], ?_⟩
  rintro u v rfl
  rw [List.filter_append] at hx
  obtain ⟨a, b, rfl, ha, -⟩ := List.filter_eq_append_iff.mp hx.symm
  rw [← roundDepth_visible, ← ha, roundDepth_visible]
  exact h.opened a b rfl

/-- A pair of a text whose lines were trimmed is one of the text, and without it both are the same once
their lines are trimmed. -/
theorem Unbracketed.of_trimLines (h : Unbracketed (trimLines t) t') :
    ∃ t'', Unbracketed t t'' ∧ trimLines t'' = trimLines t' := by
  obtain ⟨u, mid, v, ht, rfl, hmid, hu⟩ := h
  obtain ⟨u', rest, rfl, hfront, hrest⟩ := trimLines_cases ht (by decide)
  obtain ⟨mid', v', rfl, hfront', rfl⟩ := trimLines_cases hrest (by decide)
  refine ⟨u' ++ (mid' ++ v'), ⟨u', mid', v', rfl, rfl, hmid.of_visible hfront'.visible, fun c hc => ?_⟩, ?_⟩
  · cases hblank : isBlank c with
    | true => exact isAlphanum_of_isBlank hblank
    | false => exact hu c (hfront.last c hc hblank)
  · calc trimLines (u' ++ (mid' ++ v')) = trimLines (u ++ (mid' ++ v')) := hfront.trims _
      _ = trimLines (u ++ trimLines (mid' ++ v')) := (trimLines_append_trimLines _ _).symm
      _ = trimLines (u ++ trimLines (mid ++ v')) := by rw [hfront'.trims]
      _ = trimLines (u ++ (mid ++ v')) := trimLines_append_trimLines _ _
      _ = trimLines (u ++ mid ++ v') := by rw [List.append_assoc]
      _ = trimLines (u ++ mid ++ trimLines v') := (trimLines_append_trimLines _ _).symm
      _ = trimLines (u ++ (mid ++ trimLines v')) := by rw [List.append_assoc]

end Trimming

end FieldLang
