/-
What the texts of a document are read as.

* `Spells`, `SpellsRow` : every text of a document, or of documents in a row, has these lexemes;
* `Gap` : a document that separates what stands before it from what stands behind it;
* `spells_joined`, `spells_bracketed` : rows with commas and brackets.

Design notes: a gap begins and ends with a separator, so no token crosses it, wherever lines are
broken. Documents are put together at gaps, and only a sign and a step touch what they belong to.
-/
import FieldLang.Proofs.Layout.Rendering
import FieldLang.Proofs.Loops.Inert
import FieldLang.Proofs.Writing.Spelling
import Mathlib.Data.List.Forall2

namespace FieldLang.Layout

open Loops

/-! ### Blanks -/

theorem lexemes_blanks {blanks v : List Char} (h : ∀ c ∈ blanks, Text.isBlank c = true) :
    lexemes (blanks ++ v) = lexemes v := by
  induction blanks with
  | nil => rfl
  | cons c blanks ih =>
    rw [List.cons_append, lexemes_blank (h c (List.mem_cons_self ..)),
      ih fun d hd => h d (List.mem_cons_of_mem _ hd)]

theorem lexemes_append_blanks {u blanks : List Char} (h : ∀ c ∈ blanks, Text.isBlank c = true) :
    lexemes (u ++ blanks) = lexemes u := by
  rw [lexemes, tokens, tokensFrom_append_blanks h, lexemes, tokens]

/-- Trimming the lines of a text keeps its lexemes. -/
theorem lexemes_trimLines (t : List Char) : lexemes (trimLines t) = lexemes t := by
  have hline : ∀ line, lexemes (Text.trimEnd line) = lexemes line := by
    intro line
    obtain ⟨blanks, hl, hb⟩ := exists_trimEnd line
    calc lexemes (Text.trimEnd line) = lexemes (Text.trimEnd line ++ blanks) :=
          (lexemes_append_blanks hb).symm
      _ = lexemes line := by rw [← hl]
  have hbreak : isSeparator '\n' = true := by decide
  induction t using lines_induction with
  | last line h => rw [trimLines_of_not_mem h, hline]
  | more line rest h ih =>
    rw [trimLines_append h, lexemes_append (apart_separator hbreak),
      lexemes_append (apart_separator hbreak), hline, lexemes_blank (by decide),
      lexemes_blank (by decide), ih]

/-! ### Documents -/

/-- Every text of the document has these lexemes, and unrolling copies it. -/
def Spells (doc : Doc) (ls : List Lexeme) : Prop :=
  ∀ indent t, doc.Renders indent t → lexemes t = some ls ∧ Inert t

/-- The same for documents in a row. -/
def SpellsRow (docs : List Doc) (ls : List Lexeme) : Prop :=
  ∀ indent t, RendersAll docs indent t → lexemes t = some ls ∧ Inert t

/-- Every text of the document separates what stands on its two sides, and has these lexemes. -/
structure Gap (doc : Doc) (ls : List Lexeme) : Prop where
  spells : Spells doc ls
  first : ∀ indent t, doc.Renders indent t → ∃ c rest, t = c :: rest ∧ isSeparator c = true
  last : ∀ indent t, doc.Renders indent t → ∃ rest c, t = rest ++ [c] ∧ isSeparator c = true

section Row

variable {doc gap : Doc} {docs : List Doc} {ls m l : List Lexeme}

theorem spellsRow_nil : SpellsRow [] [] := by
  rintro indent t rfl
  exact ⟨lexemes_nil, .of_not_mem (by simp) (by simp)⟩

theorem spellsRow_single (h : Spells doc ls) : SpellsRow [doc] ls := by
  rintro indent t ⟨u, v, rfl, hu, rfl⟩
  rw [List.append_nil]
  exact h indent u hu

theorem SpellsRow.concat (h : SpellsRow docs ls) : Spells (.concat docs) ls := h

/-- A row goes on behind a gap. -/
theorem Gap.cons (hgap : Gap gap m) (h : SpellsRow docs ls) :
    SpellsRow (gap :: docs) (m ++ ls) := by
  rintro indent t ⟨u, v, rfl, hu, hv⟩
  obtain ⟨hlu, hiu⟩ := hgap.spells indent u hu
  obtain ⟨hlv, hiv⟩ := h indent v hv
  obtain ⟨rest, c, rfl, hc⟩ := hgap.last indent u hu
  exact ⟨lexemes_append_some (separator_apart hc) hlu hlv, hiu.append hiv⟩

/-- A row with a gap behind its first document. -/
theorem Gap.between (hgap : Gap gap m) (h : Spells doc l) (hrow : SpellsRow docs ls) :
    SpellsRow (doc :: gap :: docs) (l ++ (m ++ ls)) := by
  rintro indent t ⟨u, v, rfl, hu, hv⟩
  obtain ⟨hlu, hiu⟩ := h indent u hu
  obtain ⟨hlv, hiv⟩ := hgap.cons hrow indent v hv
  obtain ⟨w, x, rfl, hw, -⟩ := hv
  obtain ⟨c, rest, rfl, hc⟩ := hgap.first indent w hw
  rw [List.cons_append] at hlv hiv ⊢
  exact ⟨lexemes_append_some (apart_separator hc) hlu hlv, hiu.append hiv⟩

end Row

/-- A text that begins and ends with a separator is a gap. -/
theorem gap_text {s : String} {m : List Lexeme} {c d : Char} {rest rest' : List Char}
    (hm : lexemes s.toList = some m) (hi : Inert s.toList)
    (hfirst : s.toList = c :: rest) (hc : isSeparator c = true)
    (hlast : s.toList = rest' ++ [d]) (hd : isSeparator d = true) : Gap (.text s) m where
  spells := by
    rintro indent t rfl
    exact ⟨hm, hi⟩
  first := by
    rintro indent t rfl
    exact ⟨c, rest, hfirst, hc⟩
  last := by
    rintro indent t rfl
    exact ⟨rest', d, hlast, hd⟩

theorem spells_text {s : String} {ls : List Lexeme} (h : lexemes s.toList = some ls)
    (hi : Inert s.toList) : Spells (.text s) ls := by
  rintro indent t rfl
  exact ⟨h, hi⟩

theorem inert_blanks {t : List Char} (h : ∀ c ∈ t, Text.isBlank c = true) : Inert t := by
  refine .of_not_mem (fun hm => ?_) (fun hm => ?_)
  · exact absurd (h _ hm) (by decide)
  · exact absurd (h _ hm) (by decide)

/-- A break of a line consists of blanks. -/
theorem blank_of_renders {s : String} (hs : ∀ c ∈ s.toList, Text.isBlank c = true) {hard : Bool}
    {indent : Int} {t : List Char} (h : (Doc.line s hard).Renders indent t) :
    ∀ c ∈ t, Text.isBlank c = true := by
  rcases h with ⟨-, rfl⟩ | rfl
  · exact hs
  · intro c hc
    rcases List.mem_cons.mp hc with rfl | hc
    · decide
    · rw [List.eq_of_mem_replicate hc]
      decide

/-! ### Rows with commas, and brackets -/

/-- The separator of items. -/
def comma : Doc := .concat [.text ",", Doc.space]

theorem gap_comma : Gap comma [.comma] := by
  -- a blank stands behind the comma, or a line break with the indentation of the next line
  have hshape : ∀ indent t, comma.Renders indent t → ∃ blanks, t = ',' :: blanks ∧
      blanks ≠ [] ∧ ∀ c ∈ blanks, Text.isBlank c = true := by
    rintro indent t ⟨u, v, rfl, rfl, v, w, rfl, hv, rfl⟩
    refine ⟨v, by simp, ?_, blank_of_renders (by decide) hv⟩
    rcases hv with ⟨-, rfl⟩ | rfl <;> simp
  refine ⟨?_, ?_, ?_⟩
  · intro indent t ht
    obtain ⟨blanks, rfl, -, hb⟩ := hshape indent t ht
    have hcomma : lexemes [','] = some [.comma] := by
      rw [lexemes_token (by decide) (show scan ',' [] = .ok (.comma, 0) from rfl), List.drop_nil,
        lexemes_nil]
      rfl
    refine ⟨?_, ?_⟩
    · rw [← hcomma]
      exact lexemes_append_blanks (u := [',']) hb
    · exact Inert.append (u := [',']) (.of_not_mem (by decide) (by decide)) (inert_blanks hb)
  · intro indent t ht
    obtain ⟨blanks, rfl, -, -⟩ := hshape indent t ht
    exact ⟨',', blanks, rfl, by decide⟩
  · intro indent t ht
    obtain ⟨blanks, rfl, hne, hb⟩ := hshape indent t ht
    refine ⟨',' :: blanks.dropLast, blanks.getLast hne, ?_, ?_⟩
    · rw [List.cons_append, List.dropLast_concat_getLast]
    · exact isSeparator_of_isBlank (hb _ (List.getLast_mem hne))

open Canonical

/-- Documents with commas between them have their lexemes, with commas between them. -/
theorem spells_joined {docs : List Doc} {lss : List (List Lexeme)}
    (h : List.Forall₂ Spells docs lss) : Spells (Doc.joined comma docs) (commaSeparated lss) := by
  cases h with
  | nil => exact spellsRow_nil
  | @cons doc ls docs lss hfirst hrest =>
    show SpellsRow _ _
    rw [commaSeparated]
    -- by induction on the items behind the first one, each of which stands behind a comma
    induction hrest generalizing doc ls with
    | nil => simpa using spellsRow_single hfirst
    | cons hsecond _ ih => exact gap_comma.between hfirst (ih hsecond)

/-- Items between an opening text and a closing one, wherever the lines are broken. -/
theorem spells_bracketed {opening closing : String} {docs : List Doc} {a b : List Lexeme}
    {lss : List (List Lexeme)} {rest : List Char} {c : Char} {indent : Int}
    (ha : lexemes opening.toList = some a) (hi : Inert opening.toList)
    (hlast : opening.toList = rest ++ [c]) (hc : isSeparator c = true)
    (hclosing : Gap (.text closing) b) (h : List.Forall₂ Spells docs lss) :
    Spells (Doc.bracketed opening docs closing indent) (a ++ (commaSeparated lss ++ b)) := by
  obtain ⟨hb, hib⟩ := hclosing.spells 0 _ rfl
  obtain ⟨d, rest', hfirst, hd⟩ := hclosing.first 0 _ rfl
  cases h with
  | nil =>
    rintro indent t rfl
    rw [String.toList_append, hlast]
    refine ⟨lexemes_append_some (separator_apart hc) (hlast ▸ ha) hb, ?_⟩
    exact (hlast ▸ hi).append hib
  | @cons doc ls docs lss hfirst' hrest =>
    have hbody := spells_joined (.cons hfirst' hrest)
    rintro indent' t ⟨_, _, rfl, rfl, _, _, rfl, ⟨soft, _, rfl, hsoft, body, _, rfl, hd', rfl⟩,
      soft', _, rfl, hsoft', _, _, rfl, rfl, rfl⟩
    -- behind the opening text and before the closing one the line may be broken
    have hblank := blank_of_renders (by decide) hsoft
    have hblank' := blank_of_renders (by decide) hsoft'
    obtain ⟨hlbody, hibody⟩ := hbody _ _ hd'
    have hclose : lexemes (soft' ++ closing.toList) = some b := by rw [lexemes_blanks hblank', hb]
    have happart : Apart body (soft' ++ closing.toList) := by
      cases soft' with
      | nil =>
        rw [List.nil_append, hfirst]
        exact apart_separator hd
      | cons e soft' =>
        exact apart_separator (isSeparator_of_isBlank (hblank' e (List.mem_cons_self ..)))
    have hinner : lexemes (soft ++ (body ++ (soft' ++ closing.toList)))
        = some (commaSeparated (ls :: lss) ++ b) := by
      rw [lexemes_blanks hblank, lexemes_append_some happart hlbody hclose]
    simp only [List.append_nil, List.append_assoc]
    rw [hlast]
    refine ⟨lexemes_append_some (separator_apart hc) (hlast ▸ ha) hinner, ?_⟩
    exact (hlast ▸ hi).append ((inert_blanks hblank).append (hibody.append
      ((inert_blanks hblank').append hib)))

end FieldLang.Layout