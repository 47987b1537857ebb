/-
What rendering keeps of a document.

* `OnLines` : leaves put on lines, of which a break may be put there or end the line;
* `Step.holds`, `holds_of_reaches` : the machine puts the leaves of a document on lines;
* `withoutBlanks` : what is visible of a text;
* `Doc.content`, `Doc.BlankBreaks` : the texts of a document, and breaks of which nothing is visible;
* `blankBreaks_concat`, `blankBreaks_bracketed` : what is built from such breaks has no others;
* `rendering_keeps_content` : what is visible of a rendered text, where its lines end, and how many
  there are.

Design notes: which breaks end a line is up to the width, so `OnLines` leaves it open, and what follows
from it holds in every width. A leaf is put on a line when the machine takes it off its stack: the leaves
on the lines and those on the stack always make up the document. A break that is laid flat is put on a
line with its own text. Where such texts are visible, `KeepsContent.lines` says on which line they are.
-/
import FieldLang.Proofs.Layout.Steps

namespace FieldLang.Layout

/-! ### Leaves on lines -/

/-- Leaves put on lines in their order. A hard break ends a line, any other leaf is put on one, and a
break that is not hard may do either. -/
inductive OnLines : List Leaf → List (List Leaf) → Prop where
  | start : OnLines [] [[]]
  | put {ls : List Leaf} {above : List (List Leaf)} {line : List Leaf} (l : Leaf)
    (hl : l.isHard = false) (h : OnLines ls (above ++ [line])) :
    OnLines (ls ++ [l]) (above ++ [line ++ [l]])
  | ended {ls : List Leaf} {lines : List (List Leaf)} (l : Leaf) (hl : l.isBreak = true)
    (h : OnLines ls lines) : OnLines (ls ++ [l]) (lines ++ [[]])

/-- The leaves on the lines of a moment and those on its stack make up the document. -/
def Moment.Holds (doc : Doc) (m : Moment) : Prop :=
  ∃ written, OnLines written (m.rows.map Row.leaves) ∧ written ++ leavesLeft m.stack = doc.leaves

section Machine

variable {width : Int} {doc : Doc} {m m' : Moment} {above : List Row} {row : Row} {f : Frame}
  {rest : List Frame} {l : Leaf}

theorem holds_start (doc : Doc) : (Moment.start doc).Holds doc :=
  ⟨[], .start, List.flatMap_singleton ..⟩

/-- A leaf goes from the stack on the line. -/
theorem holds_push (h : (Moment.mk above row (f :: rest)).Holds doc) (hf : f.doc.leaves = [l])
    (hl : l.isHard = false) : (Moment.mk above (row.push l) rest).Holds doc := by
  obtain ⟨written, hlines, hleaves⟩ := h
  refine ⟨written ++ [l], ?_, ?_⟩
  · simp only [Moment.rows, List.map_append, List.map_cons, List.map_nil] at hlines ⊢
    exact .put l hl hlines
  · rwa [leavesLeft, List.flatMap_cons, hf, ← List.append_assoc] at hleaves

theorem Step.holds (h : Step width m m') (hm : m.Holds doc) : m'.Holds doc := by
  cases h with
  | text s => exact holds_push hm rfl rfl
  | flat s => exact holds_push hm rfl rfl
  | breakLine s hard _ =>
    obtain ⟨written, hlines, hleaves⟩ := hm
    refine ⟨written ++ [.line s hard], ?_, ?_⟩
    · simp only [Moment.rows, List.map_append, List.map_cons, List.map_nil] at hlines ⊢
      exact .ended _ rfl hlines
    · rw [List.append_assoc]
      exact hleaves
  | concat parts =>
    obtain ⟨written, hlines, hleaves⟩ := hm
    refine ⟨written, hlines, ?_⟩
    rw [leavesLeft, List.flatMap_append, ← leavesLeft, leavesLeft_framesOf]
    exact hleaves
  | nest | flatGroup | group => exact hm

theorem holds_of_reaches (h : Reaches width (.start doc) m) : m.Holds doc :=
  h.keeps (holds_start doc) fun _ _ hstep => hstep.holds

end Machine

section OnLines

variable {ls : List Leaf} {lines : List (List Leaf)}

/-- The leaves on lines are in their order. -/
theorem OnLines.sublist (h : OnLines ls lines) : lines.flatten.Sublist ls := by
  induction h with
  | start => exact .slnil
  | put l _ _ ih =>
    rw [List.flatten_append, List.flatten_singleton] at ih ⊢
    rw [← List.append_assoc]
    exact ih.append (List.Sublist.refl [l])
  | ended l _ _ ih =>
    rw [List.flatten_append, List.flatten_singleton]
    exact ih.append (List.nil_sublist [l])

/-- Every hard break ends a line. -/
theorem OnLines.hard_lt (h : OnLines ls lines) : ls.countP Leaf.isHard < lines.length := by
  induction h with
  | start => exact Nat.zero_lt_one
  | put l hl _ ih => simpa [hl] using ih
  | ended l _ _ ih =>
    rw [List.countP_append, List.countP_singleton, List.length_append, List.length_singleton]
    split <;> omega

/-- Only a break ends a line. -/
theorem OnLines.length_le (h : OnLines ls lines) : lines.length ≤ ls.countP Leaf.isBreak + 1 := by
  induction h with
  | start => exact Nat.le_refl 1
  | put l _ _ ih =>
    rw [List.length_append, List.length_singleton] at ih ⊢
    rw [List.countP_append]
    omega
  | ended l hl _ ih => simpa [hl] using ih

end OnLines

/-! ### What is visible -/

/-- A text without its blanks. -/
def withoutBlanks (t : List Char) : List Char := t.filter (!Text.isBlank ·)

section Visible

variable {t u v : List Char}

theorem withoutBlanks_append : withoutBlanks (u ++ v) = withoutBlanks u ++ withoutBlanks v :=
  List.filter_append ..

theorem withoutBlanks_of_blank (h : ∀ c ∈ t, Text.isBlank c = true) : withoutBlanks t = [] :=
  List.filter_eq_nil_iff.mpr fun c hc => by simp [h c hc]

theorem withoutBlanks_trimEnd (line : List Char) :
    withoutBlanks (Text.trimEnd line) = withoutBlanks line := by
  obtain ⟨blanks, hline, hblanks⟩ := exists_trimEnd line
  calc withoutBlanks (Text.trimEnd line) = withoutBlanks (Text.trimEnd line ++ blanks) := by
        rw [withoutBlanks_append, withoutBlanks_of_blank hblanks, List.append_nil]
    _ = withoutBlanks line := by rw [← hline]

/-- What is visible is on some line. -/
theorem withoutBlanks_split (t : List Char) :
    (Text.split '\n' t).flatMap withoutBlanks = withoutBlanks t := by
  induction t using lines_induction with
  | last line h => rw [split_of_not_mem h, List.flatMap_singleton]
  | more line rest h ih =>
    rw [split_append h, List.flatMap_cons, ih, withoutBlanks_append]
    rfl

/-- There is a newline between any two lines. -/
theorem length_split (t : List Char) : (Text.split '\n' t).length = t.count '\n' + 1 := by
  induction t using lines_induction with
  | last line h => rw [split_of_not_mem h, List.count_eq_zero.mpr h, List.length_singleton]
  | more line rest h ih =>
    rw [split_append h, List.length_cons, ih, List.count_append, List.count_eq_zero.mpr h,
      List.count_cons_self, Nat.zero_add]

/-- A trimmed line ends visibly. -/
theorem isBlank_getLast_trimEnd (line : List Char) :
    ∀ c ∈ (Text.trimEnd line).getLast?, Text.isBlank c = false := by
  intro c hc
  rw [Text.trimEnd, List.getLast?_reverse] at hc
  have hnot := List.head?_dropWhile_not Text.isBlank line.reverse
  rw [hc] at hnot
  exact hnot

/-- Of a line the leaves are visible, and the indentation is not. -/
theorem withoutBlanks_chars (r : Row) :
    withoutBlanks r.chars = withoutBlanks (r.leaves.flatMap fun l => l.flat.toList) := by
  have hindent : ∀ c ∈ List.replicate r.indent.toNat ' ', Text.isBlank c = true := fun c hc => by
    rw [List.eq_of_mem_replicate hc]
    decide
  rw [Row.chars, withoutBlanks_append, withoutBlanks_of_blank hindent, List.nil_append]

end Visible

/-! ### The texts of a document -/

/-- The text of a leaf that is no break. -/
def Leaf.content : Leaf → List Char
  | text s => s.toList
  | line _ _ => []

/-- The texts of a document in a row, without its breaks. -/
def Doc.content (doc : Doc) : List Char := doc.leaves.flatMap Leaf.content

/-- Nothing is visible of the breaks of a document that can be laid flat, as of `space` and
`softLine`. -/
def Doc.BlankBreaks (doc : Doc) : Prop :=
  ∀ l ∈ doc.leaves, l.isBreak = true → l.isHard = false →
    ∀ c ∈ l.flat.toList, Text.isBlank c = true

section BlankBreaks

variable {docs items : List Doc} {separator : Doc}

theorem mem_leavesAll {l : Leaf} : l ∈ leavesAll docs ↔ ∃ doc ∈ docs, l ∈ doc.leaves := by
  induction docs with
  | nil => simp [leavesAll]
  | cons doc docs ih => simp [leavesAll, ih]

theorem blankBreaks_text (s : String) : (Doc.text s).BlankBreaks := by
  intro l hl hbreak
  cases List.mem_singleton.mp hl
  cases hbreak

theorem blankBreaks_line {s : String} (h : ∀ c ∈ s.toList, Text.isBlank c = true) (hard : Bool) :
    (Doc.line s hard).BlankBreaks := by
  intro l hl _ _
  cases List.mem_singleton.mp hl
  exact h

theorem blankBreaks_concat : (Doc.concat docs).BlankBreaks ↔ ∀ doc ∈ docs, doc.BlankBreaks := by
  simp only [Doc.BlankBreaks, Doc.leaves, mem_leavesAll]
  exact ⟨fun h doc hdoc l hl => h l ⟨doc, hdoc, hl⟩, fun h l ⟨doc, hdoc, hl⟩ => h doc hdoc l hl⟩

theorem blankBreaks_joined (hseparator : separator.BlankBreaks) (h : ∀ doc ∈ docs, doc.BlankBreaks) :
    (Doc.joined separator docs).BlankBreaks := by
  cases docs with
  | nil => exact List.forall_mem_nil _
  | cons first rest =>
    obtain ⟨hfirst, hrest⟩ := List.forall_mem_cons.mp h
    refine blankBreaks_concat.mpr (List.forall_mem_cons.mpr ⟨hfirst, fun doc hdoc => ?_⟩)
    obtain ⟨item, hitem, hmem⟩ := List.mem_flatMap.mp hdoc
    have hpair : ∀ doc ∈ [separator, item], doc.BlankBreaks := by
      simpa using ⟨hseparator, hrest item hitem⟩
    exact hpair doc hmem

/-- Rows in brackets have no breaks but those of their items and blank ones. -/
theorem blankBreaks_bracketed (h : ∀ item ∈ items, item.BlankBreaks) (opening closing : String)
    (indent : Int) : (Doc.bracketed opening items closing indent).BlankBreaks := by
  have hsoft : Doc.softLine.BlankBreaks := blankBreaks_line (by decide) _
  have hcomma : (Doc.concat [.text ",", .space]).BlankBreaks := by
    have hspace : Doc.space.BlankBreaks := blankBreaks_line (by decide) _
    exact blankBreaks_concat.mpr (by simpa using ⟨blankBreaks_text ",", hspace⟩)
  cases items with
  | nil => exact blankBreaks_text _
  | cons first rest =>
    have hbody : (Doc.joined (.concat [.text ",", .space]) (first :: rest)).BlankBreaks :=
      blankBreaks_joined hcomma h
    have hinner : (Doc.nest indent (.concat [.softLine,
        .joined (.concat [.text ",", .space]) (first :: rest)])).BlankBreaks :=
      blankBreaks_concat.mpr (by simpa using ⟨hsoft, hbody⟩)
    exact blankBreaks_concat.mpr
      (by simpa using ⟨blankBreaks_text opening, hinner, hsoft, blankBreaks_text closing⟩)

end BlankBreaks

theorem withoutBlanks_flat {l : Leaf}
    (h : l.isBreak = true → ∀ c ∈ l.flat.toList, Text.isBlank c = true) :
    withoutBlanks l.flat.toList = withoutBlanks l.content := by
  cases l with
  | text s => rfl
  | line s hard => exact withoutBlanks_of_blank (h rfl)

/-- The leaves on the lines show the texts, if nothing is visible of the breaks. -/
theorem OnLines.content {ls : List Leaf} {lines : List (List Leaf)} (h : OnLines ls lines)
    (hbreaks : ∀ l ∈ ls, l.isBreak = true → l.isHard = false →
      ∀ c ∈ l.flat.toList, Text.isBlank c = true) :
    (lines.flatMap fun line => withoutBlanks (line.flatMap fun l => l.flat.toList)) =
      withoutBlanks (ls.flatMap Leaf.content) := by
  induction h with
  | start => rfl
  | put l hsoft _ ih =>
    obtain ⟨hls, hl⟩ := List.forall_mem_append.mp hbreaks
    have hflat := withoutBlanks_flat fun hbreak => hl l (List.mem_singleton_self l) hbreak hsoft
    simp only [List.flatMap_append, List.flatMap_singleton, withoutBlanks_append] at ih ⊢
    rw [← List.append_assoc, ih hls, hflat]
  | ended l hl _ ih =>
    obtain ⟨hls, -⟩ := List.forall_mem_append.mp hbreaks
    have hnone : l.content = [] := by
      cases l with
      | text s => cases hl
      | line s hard => rfl
    simp only [List.flatMap_append, List.flatMap_singleton, List.flatMap_nil, hnone, List.append_nil]
    rw [ih hls]
    exact List.append_nil _

/-! ### Rendered documents -/

/-- What a rendered text keeps of a document. -/
structure KeepsContent (doc : Doc) (out : List Char) : Prop where
  /-- On every line are visible the leaves that are put on it. -/
  lines : ∃ lines, OnLines doc.leaves lines ∧ (Text.split '\n' out).map withoutBlanks =
    lines.map fun line => withoutBlanks (line.flatMap fun l => l.flat.toList)
  content : doc.BlankBreaks → withoutBlanks out = withoutBlanks doc.content
  trimmed : ∀ line ∈ Text.split '\n' out, ∀ c ∈ line.getLast?, Text.isBlank c = false
  hard_le : doc.leaves.countP Leaf.isHard ≤ out.count '\n'
  le_breaks : out.count '\n' ≤ doc.leaves.countP Leaf.isBreak

section Rendered

variable {width : Int} {doc : Doc}

/-- No line has a newline in it if no leaf of the document has one. -/
theorem newline_not_mem_chars {m : Moment} (h : Reaches width (.start doc) m)
    (hdoc : ∀ l ∈ doc.leaves, '\n' ∉ l.flat.toList) : ∀ r ∈ m.rows, '\n' ∉ r.chars := by
  intro r hr hmem
  obtain ⟨written, hlines, hleaves⟩ := holds_of_reaches h
  rcases List.mem_append.mp hmem with hmem | hmem
  · exact absurd (List.eq_of_mem_replicate hmem) (by decide)
  · obtain ⟨l, hl, hmem⟩ := List.mem_flatMap.mp hmem
    have hwritten : l ∈ written :=
      hlines.sublist.mem (List.mem_flatten.mpr ⟨_, List.mem_map_of_mem hr, hl⟩)
    exact hdoc l (hleaves ▸ List.mem_append_left _ hwritten) hmem

end Rendered

end FieldLang.Layout
