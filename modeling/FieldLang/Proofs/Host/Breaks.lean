/-
Where the lines of generated functions are broken.

* `openBehind`, `withoutInner` : the brackets that are open behind a text, and the text without the
  blanks between brackets;
* `LogicalLine` : a text whose lines are broken between brackets only;
* `Steady`, `expr_steady`, `statement_steady`, `final_steady` : what is written for an expression or a
  statement is broken there, and its texts differ there only.

Design notes: a document has many texts, one of which a width selects. All of them agree in what stands
outside of brackets, so no width has to be followed through the layout. Trimming takes blanks from the
ends of lines, and since no row of a function ends in a blank, only from those between brackets.
-/
import FieldLang.Proofs.Host.Document

namespace FieldLang.HostWriter

open Host Layout Writing

/-! ### Brackets and blanks -/

/-- The number of open brackets behind a character. -/
def opened (d : Nat) (c : Char) : Nat :=
  if c = '(' ∨ c = '[' then d + 1 else if c = ')' ∨ c = ']' then d - 1 else d

/-- The number of open brackets behind a text, `d` of them being open before it. -/
def openBehind (d : Nat) (t : List Char) : Nat := t.foldl opened d

/-- The text without the blanks between brackets. -/
def withoutInner (d : Nat) : List Char → List Char
  | [] => []
  | c :: rest =>
    if 0 < d ∧ Text.isBlank c = true then withoutInner d rest
    else c :: withoutInner (opened d c) rest

/-- Every line feed stands between brackets. -/
def BreaksInside (d : Nat) : List Char → Prop
  | [] => True
  | c :: rest => (c = '\n' → 0 < d) ∧ BreaksInside (opened d c) rest

/-- The text does not end in a blank. -/
def EndsVisible (t : List Char) : Prop := ∃ c, t.getLast? = some c ∧ Text.isBlank c = false

/-- A text that is one line of a program, wherever its lines are broken. -/
structure LogicalLine (t : List Char) : Prop where
  visible : Visible t
  closed : openBehind 0 t = 0
  breaks : BreaksInside 0 t

section Texts

variable {d : Nat} {u v : List Char}

theorem openBehind_append (d : Nat) (u v : List Char) :
    openBehind d (u ++ v) = openBehind (openBehind d u) v := List.foldl_append

/-- The characters that open and close brackets, and the line feed. -/
def structural : List Char := ['(', '[', ')', ']', '\n']

theorem opened_of_not_mem {c : Char} (h : c ∉ structural) (d : Nat) : opened d c = d := by
  simp only [structural, List.mem_cons, List.not_mem_nil, or_false, not_or] at h
  rw [opened, if_neg (by tauto), if_neg (by tauto)]

theorem opened_of_isBlank {c : Char} (h : Text.isBlank c = true) (d : Nat) : opened d c = d := by
  have hbrackets : ∀ c ∈ ['(', '[', ')', ']'], Text.isBlank c = false := by decide
  have hne : c ∉ ['(', '[', ')', ']'] := fun hc => by
    rw [hbrackets c hc] at h
    cases h
  simp only [List.mem_cons, List.not_mem_nil, or_false, not_or] at hne
  rw [opened, if_neg (by tauto), if_neg (by tauto)]

theorem openBehind_blanks (h : ∀ c ∈ u, Text.isBlank c = true) (d : Nat) : openBehind d u = d := by
  induction u with
  | nil => rfl
  | cons c u ih =>
    obtain ⟨hc, hu⟩ := List.forall_mem_cons.mp h
    rw [openBehind, List.foldl_cons, opened_of_isBlank hc]
    exact ih hu

theorem withoutInner_append (d : Nat) (u v : List Char) :
    withoutInner d (u ++ v) = withoutInner d u ++ withoutInner (openBehind d u) v := by
  induction u generalizing d with
  | nil => rfl
  | cons c u ih =>
    rw [List.cons_append, withoutInner, withoutInner, openBehind, List.foldl_cons]
    split
    · next h => rw [ih, opened_of_isBlank h.2, openBehind]
    · rw [ih, List.cons_append, openBehind]

/-- Blanks between brackets do not count. -/
theorem withoutInner_blanks (hd : 0 < d) (h : ∀ c ∈ u, Text.isBlank c = true) :
    withoutInner d u = [] := by
  induction u with
  | nil => rfl
  | cons c u ih =>
    obtain ⟨hc, hu⟩ := List.forall_mem_cons.mp h
    rw [withoutInner, if_pos ⟨hd, hc⟩, ih hu]

theorem breaksInside_append :
    BreaksInside d (u ++ v) ↔ BreaksInside d u ∧ BreaksInside (openBehind d u) v := by
  induction u generalizing d with
  | nil => simp [BreaksInside, openBehind]
  | cons c u ih =>
    rw [List.cons_append, BreaksInside, BreaksInside, ih, openBehind, openBehind, List.foldl_cons,
      and_assoc]

/-- Between brackets, blanks may be line feeds. -/
theorem breaksInside_blanks (hd : 0 < d) (h : ∀ c ∈ u, Text.isBlank c = true) : BreaksInside d u := by
  induction u with
  | nil => trivial
  | cons c u ih =>
    obtain ⟨hc, hu⟩ := List.forall_mem_cons.mp h
    refine ⟨fun _ => hd, ?_⟩
    rw [opened_of_isBlank hc]
    exact ih hu

theorem breaksInside_of_not_mem (h : '\n' ∉ u) (d : Nat) : BreaksInside d u := by
  induction u generalizing d with
  | nil => trivial
  | cons c u ih =>
    obtain ⟨hc, hu⟩ := not_or.mp fun h' => h (List.mem_cons.mpr h')
    exact ⟨fun heq => absurd heq.symm hc, ih hu _⟩

/-- A text without brackets and line feeds. -/
theorem openBehind_of_not_mem (h : ∀ c ∈ u, c ∉ structural) (d : Nat) : openBehind d u = d := by
  induction u with
  | nil => rfl
  | cons c u ih =>
    obtain ⟨hc, hu⟩ := List.forall_mem_cons.mp h
    rw [openBehind, List.foldl_cons, opened_of_not_mem hc]
    exact ih hu

theorem EndsVisible.append (h : EndsVisible v) (u : List Char) : EndsVisible (u ++ v) := by
  obtain ⟨c, hlast, hc⟩ := h
  exact ⟨c, by rw [List.getLast?_append, hlast, Option.some_or], hc⟩

/-! ### Trimming -/

theorem openBehind_trimEnd (d : Nat) (line : List Char) :
    openBehind d (Text.trimEnd line) = openBehind d line := by
  obtain ⟨blanks, hline, hblanks⟩ := exists_trimEnd line
  conv_rhs => rw [hline, openBehind_append, openBehind_blanks hblanks]

/-- Trimming keeps a text that does not end in a blank. -/
theorem trimEnd_of_getLast? {line : List Char}
    (h : ∀ c, line.getLast? = some c → Text.isBlank c = false) : Text.trimEnd line = line := by
  rw [← List.head?_reverse] at h
  rw [Text.trimEnd]
  cases hline : line.reverse with
  | nil => rw [List.dropWhile_nil, List.reverse_nil, List.reverse_eq_nil_iff.mp hline]
  | cons c front =>
    have hc := h c (by rw [hline, List.head?_cons])
    rw [List.dropWhile_cons_of_neg (by simp [hc]), ← hline, List.reverse_reverse]

theorem openBehind_trimLines (d : Nat) (t : List Char) : openBehind d (trimLines t) = openBehind d t := by
  induction t using lines_induction generalizing d with
  | last line h => rw [trimLines_of_not_mem h, openBehind_trimEnd]
  | more line rest h ih =>
    rw [trimLines_append h, openBehind_append, openBehind_append, openBehind_trimEnd]
    exact ih _

theorem breaksInside_trimLines {t : List Char} (h : BreaksInside d t) : BreaksInside d (trimLines t) := by
  induction t using lines_induction generalizing d with
  | last line hline =>
    rw [trimLines_of_not_mem hline]
    exact breaksInside_of_not_mem (not_mem_trimEnd hline) d
  | more line rest hline ih =>
    obtain ⟨-, hbreak, hrest⟩ := breaksInside_append.mp h
    rw [trimLines_append hline, breaksInside_append, openBehind_trimEnd]
    exact ⟨breaksInside_of_not_mem (not_mem_trimEnd hline) d, hbreak, ih hrest⟩

/-- Trimming a text that does not end in a blank takes away blanks between brackets only. -/
theorem withoutInner_trimLines {t : List Char}
    (hends : ∀ c, t.getLast? = some c → Text.isBlank c = false) (h : BreaksInside d t) :
    withoutInner d (trimLines t) = withoutInner d t := by
  induction t using lines_induction generalizing d with
  | last line hline => rw [trimLines_of_not_mem hline, trimEnd_of_getLast? hends]
  | more line rest hline ih =>
    obtain ⟨-, hbreak, hrest⟩ := breaksInside_append.mp h
    have hd : 0 < openBehind d line := hbreak rfl
    rw [opened_of_isBlank (by decide)] at hrest
    have hends' : ∀ c, rest.getLast? = some c → Text.isBlank c = false := by
      intro c hc
      exact hends c (by rw [List.getLast?_append, List.getLast?_cons, hc]; rfl)
    obtain ⟨blanks, heq, hblanks⟩ := exists_trimEnd line
    have htrim : withoutInner d (Text.trimEnd line) = withoutInner d line := by
      conv_rhs => rw [heq, withoutInner_append, openBehind_trimEnd, withoutInner_blanks hd hblanks,
        List.append_nil]
    rw [trimLines_append hline, withoutInner_append, withoutInner_append, htrim, openBehind_trimEnd,
      withoutInner, withoutInner, if_pos ⟨hd, by decide⟩, if_pos ⟨hd, by decide⟩, ih hends' hrest]

end Texts

/-! ### Documents -/

/-- All texts of documents in a row break lines between brackets only, and agree in the rest. -/
def SteadyRow (d : Nat) (docs : List Doc) (d' : Nat) : Prop :=
  ∃ core, ∀ indent t, RendersAll docs indent t →
    openBehind d t = d' ∧ BreaksInside d t ∧ withoutInner d t = core

/-- The same for one document. -/
def SteadyAt (d : Nat) (doc : Doc) (d' : Nat) : Prop :=
  ∃ core, ∀ indent t, doc.Renders indent t →
    openBehind d t = d' ∧ BreaksInside d t ∧ withoutInner d t = core

/-- A document whose texts close their brackets, break lines between them only, agree in the rest and
do not end in a blank. -/
structure Steady (doc : Doc) : Prop where
  anywhere : ∀ d, SteadyAt d doc d
  ends : ∀ indent t, doc.Renders indent t → EndsVisible t

section Documents

variable {d d' d'' : Nat} {doc gap : Doc} {docs : List Doc}

theorem steadyRow_nil (d : Nat) : SteadyRow d [] d := by
  refine ⟨[], ?_⟩
  rintro indent t rfl
  exact ⟨rfl, trivial, rfl⟩

theorem SteadyAt.cons (h : SteadyAt d doc d') (hrow : SteadyRow d' docs d'') :
    SteadyRow d (doc :: docs) d'' := by
  obtain ⟨core, h⟩ := h
  obtain ⟨cores, hrow⟩ := hrow
  refine ⟨core ++ cores, ?_⟩
  rintro indent t ⟨u, v, rfl, hu, hv⟩
  obtain ⟨hopen, hbreaks, hcore⟩ := h indent u hu
  obtain ⟨hopen', hbreaks', hcore'⟩ := hrow indent v hv
  subst hopen
  exact ⟨by rw [openBehind_append, hopen'], breaksInside_append.mpr ⟨hbreaks, hbreaks'⟩,
    by rw [withoutInner_append, hcore, hcore']⟩

theorem SteadyAt.single (h : SteadyAt d doc d') : SteadyRow d [doc] d' := h.cons (steadyRow_nil d')

theorem steadyAt_text {s : String} (hopen : openBehind d s.toList = d') (hbreak : '\n' ∉ s.toList) :
    SteadyAt d (.text s) d' := by
  refine ⟨withoutInner d s.toList, ?_⟩
  rintro indent t rfl
  exact ⟨hopen, breaksInside_of_not_mem hbreak d, rfl⟩

/-- A text without brackets and line feeds. -/
theorem steadyAt_quiet {s : String} (h : ∀ c ∈ s.toList, c ∉ structural) (d : Nat) :
    SteadyAt d (.text s) d :=
  steadyAt_text (openBehind_of_not_mem h d) fun hbreak => h _ hbreak (by decide)

/-- A line break between brackets. -/
theorem steadyAt_line {s : String} (hs : ∀ c ∈ s.toList, c = ' ') (hd : 0 < d) (hard : Bool) :
    SteadyAt d (.line s hard) d := by
  refine ⟨[], fun indent t ht => ?_⟩
  have hblanks : ∀ c ∈ t, Text.isBlank c = true := by
    intro c hc
    rcases blank_of_renders hs ht c hc with rfl | rfl <;> decide
  exact ⟨openBehind_blanks hblanks d, breaksInside_blanks hd hblanks, withoutInner_blanks hd hblanks⟩

theorem SteadyRow.concat (h : SteadyRow d docs d') : SteadyAt d (.concat docs) d' := h

theorem SteadyAt.nest {more : Int} (h : SteadyAt d doc d') : SteadyAt d (.nest more doc) d' := by
  obtain ⟨core, h⟩ := h
  exact ⟨core, fun indent t ht => h (indent + more) t ht⟩

theorem SteadyAt.group (h : SteadyAt d doc d') : SteadyAt d (.group doc) d' := h

/-- Documents with a separator between any two of them. -/
theorem steadyAt_joined (hgap : SteadyAt d gap d) (h : ∀ doc ∈ docs, SteadyAt d doc d) :
    SteadyAt d (Doc.joined gap docs) d := by
  cases docs with
  | nil => exact (steadyRow_nil d).concat
  | cons doc docs =>
    obtain ⟨hdoc, hdocs⟩ := List.forall_mem_cons.mp h
    refine (hdoc.cons ?_).concat
    clear h hdoc
    induction docs with
    | nil => exact steadyRow_nil d
    | cons doc docs ih =>
      obtain ⟨hdoc, hdocs⟩ := List.forall_mem_cons.mp hdocs
      exact hgap.cons (hdoc.cons (ih hdocs))

theorem steadyAt_comma (hd : 0 < d) : SteadyAt d comma d :=
  ((steadyAt_quiet (by decide) d).cons (steadyAt_line (by decide) hd false).single).concat

/-- Items between brackets, wherever the lines are broken. -/
theorem steadyAt_bracketed {opening closing : String} {indent : Int}
    (hopening : openBehind d opening.toList = d + 1) (hopening' : '\n' ∉ opening.toList)
    (hclosing : openBehind (d + 1) closing.toList = d) (hclosing' : '\n' ∉ closing.toList)
    (h : ∀ doc ∈ docs, SteadyAt (d + 1) doc (d + 1)) :
    SteadyAt d (Doc.bracketed opening docs closing indent) d := by
  have hd : 0 < d + 1 := Nat.succ_pos d
  cases docs with
  | nil =>
    refine steadyAt_text ?_ ?_
    · rw [String.toList_append, openBehind_append, hopening, hclosing]
    · rw [String.toList_append]
      exact fun hc => (List.mem_append.mp hc).elim hopening' hclosing'
  | cons doc docs =>
    have hsoft : SteadyAt (d + 1) Doc.softLine (d + 1) := steadyAt_line (by decide) hd false
    have hbody := steadyAt_joined (steadyAt_comma hd) h
    refine SteadyAt.group (SteadyRow.concat ((steadyAt_text hopening hopening').cons ?_))
    refine (SteadyAt.nest (SteadyRow.concat (hsoft.cons hbody.single))).cons (hsoft.cons ?_)
    exact (steadyAt_text hclosing hclosing').single

theorem steady_text {s : String} (h : ∀ c ∈ s.toList, c ∉ structural) (hends : EndsVisible s.toList) :
    Steady (.text s) :=
  ⟨steadyAt_quiet h, by rintro indent t rfl; exact hends⟩

/-- A document with fewer texts. -/
theorem Steady.of_renders {doc' : Doc} (h : Steady doc)
    (hrenders : ∀ indent t, doc'.Renders indent t → doc.Renders indent t) : Steady doc' := by
  refine ⟨fun d => ?_, fun indent t ht => h.ends indent t (hrenders indent t ht)⟩
  obtain ⟨core, hcore⟩ := h.anywhere d
  exact ⟨core, fun indent t ht => hcore indent t (hrenders indent t ht)⟩

/-- A document behind others. -/
theorem Steady.last (h : Steady doc) (docs : List Doc)
    (hrow : ∀ d, SteadyRow d [doc] d → SteadyRow d (docs ++ [doc]) d) :
    Steady (.concat (docs ++ [doc])) := by
  refine ⟨fun d => (hrow d (h.anywhere d).single).concat, fun indent t ht => ?_⟩
  have hlast : ∀ docs t, RendersAll (docs ++ [doc]) indent t → EndsVisible t := by
    intro docs
    induction docs with
    | nil =>
      rintro t ⟨u, v, rfl, hu, rfl⟩
      rw [List.append_nil]
      exact h.ends indent u hu
    | cons first docs ih =>
      rintro t ⟨u, v, rfl, -, hv⟩
      exact (ih v hv).append u
  exact hlast docs t ht

end Documents

/-! ### Words, numbers and operators -/

/-- A name, a digit or the mark of a numeral is neither a bracket nor a line feed. -/
theorem structural_apart : ∀ c ∈ structural, Text.startsName c = false ∧
    Text.continuesName c = false ∧ c.isDigit = false ∧ c ∉ ['.', 'e', '-', '+'] := by
  decide

theorem endsVisible_of_forall {t : List Char} (hne : t ≠ [])
    (h : ∀ c ∈ t, Text.isBlank c = false) : EndsVisible t :=
  ⟨t.getLast hne, List.getLast?_eq_some_getLast hne, h _ (List.getLast_mem hne)⟩

section Leaves

variable {w : HostWriter} {s : String} {name : String}

theorem IsWord.not_structural (h : IsWord s) : ∀ c ∈ s.toList, c ∉ structural := by
  obtain ⟨c, rest, hs, hc, hrest⟩ := h
  rw [hs]
  intro e he hstructural
  obtain ⟨hstarts, hcontinues, -⟩ := structural_apart e hstructural
  obtain rfl | he := List.mem_cons.mp he
  · rw [hc] at hstarts
    cases hstarts
  · rw [hrest e he] at hcontinues
    cases hcontinues

theorem IsWord.endsVisible (h : IsWord s) : EndsVisible s.toList := by
  obtain ⟨c, rest, hs, hc, hrest⟩ := h
  rw [hs]
  refine endsVisible_of_forall (List.cons_ne_nil _ _) fun e he => ?_
  obtain rfl | he := List.mem_cons.mp he
  · exact isBlank_of_name (.inl hc)
  · exact isBlank_of_name (.inr (hrest e he))

theorem IsWord.steady (h : IsWord s) : Steady (.text s) := steady_text h.not_structural h.endsVisible

/-- The characters of numbers. -/
theorem decimalText_chars {value : Float} {negative : Bool} {mag : Decimal.Magnitude}
    (h : Decimal.parts value = .finite negative mag) :
    ∀ c ∈ (decimalText value).toList, c.isDigit = true ∨ c ∈ ['.', 'e', '-', '+'] := by
  rw [decimalText, h]
  simp only
  split
  · rw [String.toList_ofList]
    exact fun c hc => .inl (Decimal.isDigit_of_mem_natText hc)
  · rw [String.toList_ofList]
    exact (numeral_literal h).chars

theorem steady_decimalText {value : Float} {negative : Bool} {mag : Decimal.Magnitude}
    (h : Decimal.parts value = .finite negative mag) : Steady (.text (decimalText value)) := by
  have hchars := decimalText_chars h
  refine steady_text (fun c hc hstructural => ?_) (endsVisible_of_forall ?_ fun c hc => ?_)
  · obtain ⟨-, -, hdigit, hmark⟩ := structural_apart c hstructural
    obtain h | h := hchars c hc
    · rw [h] at hdigit
      cases hdigit
    · exact hmark h
  · obtain ⟨c, rest, htext, -⟩ := decimalText_digit h
    rw [htext]
    exact List.cons_ne_nil _ _
  · obtain h | h := hchars c hc
    · exact isBlank_of_name (.inr (continuesName_of_isAlphanum (.inl (isAlphanum_of_isDigit h))))
    · have hmarks : ∀ c ∈ ['.', 'e', '-', '+'], Text.isBlank c = false := by decide
      exact hmarks c h

/-- A sign in front of a document. -/
theorem steady_minus {doc : Doc} (h : Steady doc) : Steady (.concat [.text "-", doc]) :=
  h.last [.text "-"] fun d hrow => (steadyAt_quiet (by decide) d).cons hrow

theorem steady_signed (h : Steady (.text s)) : Steady (.text ("-" ++ s)) := by
  refine (steady_minus h).of_renders ?_
  rintro indent t rfl
  exact ⟨['-'], _, String.toList_append, rfl, s.toList, [], (List.append_nil _).symm, rfl, rfl⟩

theorem steady_number (value : Float) : Steady (number value).doc := by
  have hinf := (isWord_given "inf" (by simp)).steady
  rw [number]
  cases hparts : Decimal.parts value with
  | nan => exact (isWord_given "nan" (by simp)).steady
  | infinite negative =>
    cases negative with
    | false => exact hinf
    | true => exact steady_signed hinf
  | finite negative mag =>
    cases negative with
    | false => exact steady_decimalText hparts
    | true => exact steady_signed (steady_decimalText hparts)

end Leaves

/-! ### Expressions -/

section Exprs

variable {w : HostWriter}

theorem steady_brackets {doc : Doc} (h : Steady doc) :
    Steady (.concat [.text "(", doc, .text ")"]) := by
  have hopen : ∀ d, openBehind d "(".toList = d + 1 := fun d => rfl
  have hclose : ∀ d, openBehind (d + 1) ")".toList = d := fun d => rfl
  refine ⟨fun d => SteadyRow.concat ?_, ?_⟩
  · refine (steadyAt_text (hopen d) (by decide)).cons ((h.anywhere (d + 1)).cons ?_)
    exact (steadyAt_text (hclose d) (by decide)).single
  · rintro indent t ⟨u, _, rfl, -, v, _, rfl, -, _, _, rfl, rfl, rfl⟩
    exact EndsVisible.append (EndsVisible.append ⟨')', rfl, by decide⟩ v) u

theorem steady_within {r : Ranked} (h : Steady r.doc) (least : Nat) : Steady (r.within least) := by
  rw [Ranked.within]
  split
  · exact steady_brackets h
  · exact h

/-- A text between spaces has no structure. -/
theorem steadyAt_operator (op : BinOp) (d : Nat) :
    SteadyAt d (.text (" " ++ (operator op).1 ++ " ")) d := by
  cases op <;> exact steadyAt_quiet (by decide) d

theorem steady_bracketed {opening closing : String} {docs : List Doc} {indent : Int}
    (hopening : ∀ d, openBehind d opening.toList = d + 1) (hopening' : '\n' ∉ opening.toList)
    (hclosing : ∀ d, openBehind (d + 1) closing.toList = d) (hclosing' : '\n' ∉ closing.toList)
    (hends : EndsVisible closing.toList) (h : ∀ doc ∈ docs, Steady doc) :
    Steady (Doc.bracketed opening docs closing indent) := by
  refine ⟨fun d => steadyAt_bracketed (hopening d) hopening' (hclosing d) hclosing'
    fun doc hdoc => (h doc hdoc).anywhere (d + 1), fun indent t ht => ?_⟩
  cases docs with
  | nil =>
    obtain rfl : t = (opening ++ closing).toList := ht
    rw [String.toList_append]
    exact hends.append _
  | cons doc docs =>
    obtain ⟨_, _, rfl, -, _, _, rfl, -, _, _, rfl, -, _, _, rfl, rfl, rfl⟩ := ht
    rw [List.append_nil]
    exact ((hends.append _).append _).append _

theorem steady_call (f : Builtin) {docs : List Doc} (h : ∀ doc ∈ docs, Steady doc) :
    Steady (Doc.bracketed (f.name ++ "(") docs ")" indentation) := by
  have hname := (isWord_function f).not_structural
  refine steady_bracketed (fun d => ?_) ?_ (fun d => rfl) (by decide) ⟨')', rfl, by decide⟩ h
  · rw [String.toList_append, openBehind_append, openBehind_of_not_mem hname]
    rfl
  · rw [String.toList_append]
    intro hbreak
    obtain hbreak | hbreak := List.mem_append.mp hbreak
    · exact hname _ hbreak (by decide)
    · exact absurd hbreak (by decide)

theorem steady_list {docs : List Doc} (h : ∀ doc ∈ docs, Steady doc) :
    Steady (Doc.bracketed "[" docs "]" indentation) :=
  steady_bracketed (fun d => rfl) (by decide) (fun d => rfl) (by decide) ⟨']', rfl, by decide⟩ h

theorem steady_extra (f : Builtin) : ∀ doc ∈ extraArguments f, Steady doc := by
  cases f with
  | rot0 => exact List.forall_mem_singleton.mpr (isWord_given "a0" (by simp)).steady
  | rot1 => exact List.forall_mem_singleton.mpr (isWord_given "a1" (by simp)).steady
  | _ => exact List.forall_mem_nil _

/-- A variable after a step. -/
theorem quiet_stepped {name : String} (h : IsName name) (op : StepOp) :
    ∀ c ∈ (w.variableText name ++ " " ++ stepSign op ++ " 1").toList, c ∉ structural := by
  have hname := (isWord_variableText (w := w) h).not_structural
  have hsign : ∀ c ∈ (stepSign op).toList, c ∉ structural := by cases op <;> decide
  have hspace : ∀ c ∈ " ".toList, c ∉ structural := by decide
  have hone : ∀ c ∈ " 1".toList, c ∉ structural := by decide
  intro c hc
  simp only [String.toList_append, List.mem_append] at hc
  obtain ((hc | hc) | hc) | hc := hc
  · exact hname c hc
  · exact hspace c hc
  · exact hsign c hc
  · exact hone c hc

theorem steady_stepped {name : String} (h : IsName name) (op : StepOp) :
    Steady (.text (w.variableText name ++ " " ++ stepSign op ++ " 1")) := by
  refine steady_text (quiet_stepped h op) ?_
  rw [String.toList_append]
  exact EndsVisible.append ⟨'1', rfl, by decide⟩ _

theorem steady_step {name : String} (h : IsName name) (op : StepOp) :
    Steady (.text ("(" ++ w.variableText name ++ " := " ++ w.variableText name ++ " " ++ stepSign op ++
      " 1)")) := by
  have hname := (isWord_variableText (w := w) h).steady
  have hbinds : ∀ d, SteadyAt d (.text " := ") d := fun d => steadyAt_quiet (by decide) d
  have hinner := (steady_stepped (w := w) h op).last [_, _]
    fun d hrow => (hname.anywhere d).cons ((hbinds d).cons hrow)
  refine (steady_brackets hinner).of_renders ?_
  rintro indent t rfl
  refine ⟨['('], _, ?_, rfl, _, [')'], rfl, ⟨_, _, rfl, rfl, " := ".toList, _, rfl, rfl, _, [], rfl, rfl,
    rfl⟩, [')'], [], rfl, rfl, rfl⟩
  simp [String.toList_append]

theorem exprs_steady {es : List Expr} (h : ∀ e ∈ es, ∀ r, w.expr e = .ok r → Steady r.doc)
    {docs : List Doc} (hdocs : w.exprs es = .ok docs) : ∀ doc ∈ docs, Steady doc := by
  induction es generalizing docs with
  | nil =>
    cases hdocs
    exact List.forall_mem_nil _
  | cons e es ih =>
    obtain ⟨r, hr, hdocs⟩ := bind_eq_ok.mp hdocs
    obtain ⟨rest, hrest, hdocs⟩ := bind_eq_ok.mp hdocs
    cases hdocs
    refine List.forall_mem_cons.mpr ⟨?_, ih (fun x hx => h x (List.mem_cons_of_mem _ hx)) hrest⟩
    exact steady_within (h e (List.mem_cons_self ..) r hr) 0

/-- What is written for an expression breaks lines between brackets only. -/
theorem expr_steady {e : Expr} (hn : e.Named) {r : Ranked} (hr : w.expr e = .ok r) :
    Steady r.doc := by
  induction e using Expr.induction generalizing r with
  | number value =>
    cases hr
    exact steady_number value
  | name name =>
    cases hr
    exact (isWord_variableText hn).steady
  | negate operand ih =>
    obtain ⟨operand', hoperand, h⟩ := bind_eq_ok.mp hr
    cases h
    exact steady_minus (steady_within (ih hn hoperand) signRank)
  | binary op lhs rhs ihl ihr =>
    rw [expr_binary] at hr
    obtain ⟨lhs', hlhs, h⟩ := bind_eq_ok.mp hr
    obtain ⟨rhs', hrhs, h⟩ := bind_eq_ok.mp h
    cases h
    have hleft := steady_within (ihl hn.1 hlhs) (leftRank op)
    exact (steady_within (ihr hn.2 hrhs) (rightRank op)).last [_, _]
      fun d hrow => (hleft.anywhere d).cons ((steadyAt_operator op d).cons hrow)
  | conditional condition ifTrue ifFalse ihc iht ihf =>
    obtain ⟨c, hc, h⟩ := bind_eq_ok.mp hr
    obtain ⟨t, ht, h⟩ := bind_eq_ok.mp h
    obtain ⟨f, hf, h⟩ := bind_eq_ok.mp h
    cases h
    have hcondition := steady_within (ihc hn.1 hc) (conditionalRank + 1)
    have htrue := steady_within (iht hn.2.1 ht) (conditionalRank + 1)
    have hif : ∀ d, SteadyAt d (.text " if ") d := fun d => steadyAt_quiet (by decide) d
    have helse : ∀ d, SteadyAt d (.text " else ") d := fun d => steadyAt_quiet (by decide) d
    exact (steady_within (ihf hn.2.2 hf) conditionalRank).last [_, _, _, _] fun d hrow =>
      (htrue.anywhere d).cons ((hif d).cons ((hcondition.anywhere d).cons ((helse d).cons hrow)))
  | call f args ih =>
    obtain ⟨docs, hdocs, h⟩ := bind_eq_ok.mp hr
    cases h
    have hargs := exprs_steady (fun e he r => ih e he (namedAll_iff.mp hn e he)) hdocs
    refine steady_call f (List.forall_mem_append.mpr ⟨?_, steady_extra f⟩)
    split
    · exact List.forall_mem_singleton.mpr (steady_list hargs)
    · exact hargs
  | step name op =>
    obtain ⟨text, htext, h⟩ := bind_eq_ok.mp hr
    cases h
    obtain rfl := target_ok htext
    exact steady_step hn op
  | misplaced display => exact hn.elim

end Exprs

/-! ### Statements -/

section Statements

variable {w : HostWriter}

/-- Documents with a separator between any two of them end as the last one does. -/
theorem steady_joined {gap : Doc} {docs : List Doc} (hgap : ∀ d, SteadyAt d gap d) (hne : docs ≠ [])
    (h : ∀ doc ∈ docs, Steady doc) : Steady (Doc.joined gap docs) := by
  refine ⟨fun d => steadyAt_joined (hgap d) fun doc hdoc => (h doc hdoc).anywhere d, ?_⟩
  cases docs with
  | nil => exact absurd rfl hne
  | cons doc docs =>
    rintro indent t ⟨u, v, rfl, hu, hv⟩
    induction docs generalizing doc u v with
    | nil =>
      obtain rfl : v = [] := hv
      rw [List.append_nil]
      exact (h doc (by simp)).ends indent u hu
    | cons doc' docs ih =>
      obtain ⟨g, _, rfl, -, u', v', rfl, hu', hv'⟩ := hv
      have := ih doc' (List.cons_ne_nil _ _)
        (fun x hx => h x (List.mem_cons_of_mem _ hx)) u' v' hu' hv'
      exact (this.append g).append u

theorem steady_assign {target doc : Doc} (ht : Steady target) (h : Steady doc) :
    Steady (.concat [target, .text " = ", doc]) :=
  h.last [_, _] fun d hrow => (ht.anywhere d).cons ((steadyAt_quiet (by decide) d).cons hrow)

theorem steady_return {doc : Doc} (h : Steady doc) : Steady (.concat [.text "return ", doc]) :=
  h.last [_] fun d hrow => (steadyAt_quiet (by decide) d).cons hrow

theorem steady_return_variable {name : String} (h : IsName name) :
    Steady (.text ("return " ++ w.variableText name)) := by
  refine (steady_return (isWord_variableText (w := w) h).steady).of_renders ?_
  rintro indent t rfl
  exact ⟨_, _, String.toList_append, rfl, _, [], (List.append_nil _).symm, rfl, rfl⟩

/-- Words with commas between them are a text of documents with commas between them. -/
theorem renders_words {words : List String} (hne : words ≠ []) (indent : Int) :
    (Doc.joined (.text ", ") (words.map Doc.text)).Renders indent (", ".intercalate words).toList := by
  cases words with
  | nil => exact absurd rfl hne
  | cons s words =>
    rw [List.map_cons]
    induction words generalizing s with
    | nil => exact ⟨s.toList, [], by simp, rfl, rfl⟩
    | cons s' words ih =>
      obtain ⟨u, v, heq, hu, hv⟩ := ih s' (List.cons_ne_nil _ _)
      refine ⟨s.toList, _, ?_, rfl, ", ".toList, _, rfl, rfl, u, v, rfl, hu, hv⟩
      rw [String.intercalate_cons_cons, String.toList_append, String.toList_append, heq,
        List.append_assoc]

theorem steady_words {words : List String} (hne : words ≠ []) (h : ∀ s ∈ words, IsWord s) :
    Steady (.text (", ".intercalate words)) := by
  have hgap : ∀ d, SteadyAt d (.text ", ") d := fun d => steadyAt_quiet (by decide) d
  have hjoined : Steady (Doc.joined (.text ", ") (words.map Doc.text)) := by
    refine steady_joined hgap (by simpa using hne) fun doc hdoc => ?_
    obtain ⟨s, hs, rfl⟩ := List.mem_map.mp hdoc
    exact (h s hs).steady
  refine hjoined.of_renders ?_
  rintro indent t rfl
  exact renders_words hne indent

theorem steady_targets {names : List String} {doc : Doc} (hne : names ≠ [])
    (hn : ∀ name ∈ names, IsName name) (h : w.targets names = .ok doc) : Steady doc := by
  have hwords : ∀ s ∈ names.map w.variableText, IsWord s := by
    intro s hs
    obtain ⟨name, hname, rfl⟩ := List.mem_map.mp hs
    exact isWord_variableText (hn name hname)
  obtain ⟨texts, htexts, h⟩ := bind_eq_ok.mp h
  obtain rfl := targets_ok htexts
  match names, hne with
  | [name], _ =>
    cases h
    have hcomma : Steady (.text ",") := steady_text (by decide) ⟨',', rfl, by decide⟩
    have hname := (isWord_variableText (w := w) (hn name (by simp))).steady
    refine (hcomma.last [_] fun d hrow => (hname.anywhere d).cons hrow).of_renders ?_
    rintro indent t rfl
    exact ⟨_, _, String.toList_append, rfl, _, [], rfl, rfl, rfl⟩
  | name :: name' :: names, _ =>
    cases h
    exact steady_words (by simp) hwords

/-- What is written for a statement breaks lines between brackets only. -/
theorem statement_steady {s : Stmt} (hn : s.Named) {doc : Doc} (h : w.statement s = .ok doc) :
    Steady doc := by
  cases statement_ok hn h with
  | @stepped name op =>
    have hname := (isWord_variableText (w := w) hn).steady
    refine (steady_assign hname (steady_stepped (w := w) hn op)).of_renders ?_
    rintro indent t rfl
    refine ⟨_, _, ?_, rfl, " = ".toList, _, rfl, rfl, _, [], rfl, rfl, rfl⟩
    simp [String.toList_append]
  | result _ hr => exact steady_within (expr_steady hn hr) 0
  | assign hr =>
    exact steady_assign (isWord_variableText hn.1).steady (steady_within (expr_steady hn.2 hr) 0)
  | unpack htarget hr =>
    exact steady_assign (steady_targets hn.1 hn.2.1 htarget)
      (steady_within (expr_steady hn.2.2 hr) 0)
  | @single name _ _ hr =>
    obtain ⟨-, hnames, -, hvalues⟩ := hn
    exact steady_assign (isWord_variableText (hnames name (by simp))).steady
      (steady_within (expr_steady hvalues.1 hr) 0)
  | @assignEach _ _ _ values _ docs htarget hdocs =>
    obtain ⟨hne, hnames, hlength, hvalues⟩ := hn
    have hsteady := exprs_steady (fun e he r => expr_steady (namedAll_iff.mp hvalues e he)) hdocs
    -- there are values, so the line does not end behind the mark
    have hdocs' : docs ≠ [] := by
      cases values with
      | nil => exact absurd hlength (by simp)
      | cons value values =>
        obtain ⟨_, -, hdocs⟩ := bind_eq_ok.mp hdocs
        obtain ⟨_, -, hdocs⟩ := bind_eq_ok.mp hdocs
        cases hdocs
        exact List.cons_ne_nil _ _
    exact steady_assign (steady_targets hne hnames htarget)
      (steady_joined (fun d => steadyAt_quiet (by decide) d) hdocs' hsteady)

/-- So is what is written for the last statement. -/
theorem final_steady {s : Stmt} (hn : s.Named) {docs : List Doc}
    (h : w.finalStatement s = .ok docs) : ∀ doc ∈ docs, Steady doc := by
  match s with
  | .result value =>
    obtain ⟨r, hr, h⟩ := bind_eq_ok.mp h
    cases h
    exact List.forall_mem_singleton.mpr (steady_return (steady_within (expr_steady hn hr) 0))
  | .assign name value =>
    obtain ⟨line, hline, h⟩ := bind_eq_ok.mp h
    cases h
    exact List.forall_mem_cons.mpr ⟨statement_steady hn hline,
      List.forall_mem_singleton.mpr (steady_return_variable hn.1)⟩
  | .unpack names value =>
    obtain ⟨line, hline, h⟩ := bind_eq_ok.mp h
    obtain ⟨target, htarget, h⟩ := bind_eq_ok.mp h
    cases h
    exact List.forall_mem_cons.mpr ⟨statement_steady hn hline,
      List.forall_mem_singleton.mpr (steady_return (steady_targets hn.1 hn.2.1 htarget))⟩
  | .assignEach names values =>
    obtain ⟨line, hline, h⟩ := bind_eq_ok.mp h
    cases hname : names.getLast? with
    | none =>
      rw [hname] at h
      cases h
    | some name =>
      rw [hname] at h
      cases h
      refine List.forall_mem_cons.mpr ⟨statement_steady hn hline, List.forall_mem_singleton.mpr ?_⟩
      exact steady_return_variable (hn.2.1 name (List.mem_of_getLast? hname))
  | .block _ | .empty | .misplaced _ => cases h

theorem statements_steady {ss : List Stmt} (hn : ∀ s ∈ ss, s.Named) {docs : List Doc}
    (h : ss.mapM w.statement = .ok docs) : ∀ doc ∈ docs, Steady doc := by
  induction ss generalizing docs with
  | nil =>
    cases h
    exact List.forall_mem_nil _
  | cons s ss ih =>
    rw [List.mapM_cons] at h
    obtain ⟨doc, hdoc, h⟩ := bind_eq_ok.mp h
    obtain ⟨rest, hrest, h⟩ := bind_eq_ok.mp h
    cases h
    exact List.forall_mem_cons.mpr ⟨statement_steady (hn s (List.mem_cons_self ..)) hdoc,
      ih (fun x hx => hn x (List.mem_cons_of_mem _ hx)) hrest⟩

end Statements

end FieldLang.HostWriter
