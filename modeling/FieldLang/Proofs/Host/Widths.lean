/-
Programs in different widths.

* `trimLines_rows` : trimming a function trims its rows;
* `LaidOut` : the line that names a function, and its rows indented under it;
* `widths_agree` : the texts of a program differ in blanks between brackets only, and have the same
  tokens.

Design notes: the rows of a function are the texts of the same documents in every width, so they agree
one by one. A text in the program's own language may be broken between statements as well, where a
blank separates no tokens.
-/
import FieldLang.Proofs.Host.Breaks
import FieldLang.Proofs.Writing.Formatting
import Mathlib

namespace FieldLang

namespace HostWriter

open Host Layout Writing

/-! ### Rows -/

/-- A line of the body of a function. -/
def indented (row : List Char) : List Char := '\n' :: (List.replicate 4 ' ' ++ row)

section Trimming

variable {u v : List Char}

theorem trimLines_nil : trimLines [] = [] := rfl

theorem trimLines_break (v : List Char) : trimLines ('\n' :: v) = '\n' :: trimLines v :=
  @trimLines_append [] v (by simp)

/-- A line feed ends a line whatever is in front of it. -/
theorem trimLines_append_break (u v : List Char) :
    trimLines (u ++ '\n' :: v) = trimLines u ++ trimLines ('\n' :: v) := by
  induction u using lines_induction with
  | last line h => rw [trimLines_append h, trimLines_of_not_mem h, trimLines_break]
  | more line rest h ih =>
    rw [List.append_assoc, List.cons_append, trimLines_append h, trimLines_append h, ih,
      List.append_assoc, List.cons_append]

theorem trimEnd_append (hends : EndsVisible u) (v : List Char) :
    Text.trimEnd (u ++ v) = u ++ Text.trimEnd v := by
  obtain ⟨c, hlast, hc⟩ := hends
  obtain ⟨front, rfl⟩ := List.getLast?_eq_some_iff.mp hlast
  simp [trimEnd_append_cons front hc]

/-- Trimming begins behind the last character of a line that is no blank. -/
theorem trimLines_append_of_ends (hu : '\n' ∉ u) (hends : EndsVisible u) (v : List Char) :
    trimLines (u ++ v) = u ++ trimLines v := by
  by_cases hv : '\n' ∈ v
  · obtain ⟨line, rest, rfl, hline⟩ := List.eq_append_cons_of_mem hv
    have hfront : '\n' ∉ u ++ line := fun h => (List.mem_append.mp h).elim hu hline
    rw [← List.append_assoc, trimLines_append hfront, trimLines_append hline, trimEnd_append hends,
      List.append_assoc]
  · have hfront : '\n' ∉ u ++ v := fun h => (List.mem_append.mp h).elim hu hv
    rw [trimLines_of_not_mem hfront, trimLines_of_not_mem hv, trimEnd_append hends]

theorem trimLines_append_cons {c : Char} (hu : '\n' ∉ u) (hc : Text.isBlank c = false) (v : List Char) :
    trimLines (u ++ c :: v) = u ++ c :: trimLines v := by
  have hne : '\n' ≠ c := by
    rintro rfl
    exact absurd hc (by decide)
  have hends : EndsVisible (u ++ [c]) := ⟨c, List.getLast?_concat, hc⟩
  have := trimLines_append_of_ends (u := u ++ [c]) (by simp [hu, hne]) hends v
  simpa using this

theorem trimLines_cons {c : Char} (hc : Text.isBlank c = false) (v : List Char) :
    trimLines (c :: v) = c :: trimLines v :=
  @trimLines_append_cons [] c (by simp) hc v

/-- A text that does not begin with a blank. -/
def BeginsVisible (t : List Char) : Prop := ∃ c rest, t = c :: rest ∧ Text.isBlank c = false

/-- Trimming the rows of a function keeps their indentation. -/
theorem trimLines_rows {rows : List (List Char)} (h : ∀ row ∈ rows, BeginsVisible row) :
    trimLines (rows.flatMap indented) = (rows.map trimLines).flatMap indented := by
  induction rows with
  | nil => rfl
  | cons row rows ih =>
    obtain ⟨⟨c, rest, rfl, hc⟩, hrows⟩ := List.forall_mem_cons.mp h
    have hindented : trimLines (indented (c :: rest)) = indented (trimLines (c :: rest)) := by
      rw [indented, trimLines_break, trimLines_append_cons (by simp) hc, indented, trimLines_cons hc]
    rw [List.flatMap_cons, List.map_cons, List.flatMap_cons, ← ih hrows, ← hindented]
    cases rows with
    | nil => simp [trimLines_nil]
    | cons row' rows =>
      rw [List.flatMap_cons, indented.eq_def row', List.cons_append, trimLines_append_break]

end Trimming

/-- The line that names a function. -/
def header (functionName : String) : List Char := ("def " ++ functionName ++ "(x, y, z):").toList

/-- The text of a function: the line that names it, and under it the rows of its body, each of them one
line with its own tokens. -/
def LaidOut (functionName : String) (tss : List (List HostToken)) (text : List Char) : Prop :=
  ∃ rows, text = header functionName ++ (rows.flatMap indented ++ ['\n']) ∧
    List.Forall₂ (fun row ts => LogicalLine row ∧ hostTokens row = some (.line 0 :: ts)) rows tss

section Rows

variable {docs : List Doc} {tss : List (List HostToken)} {indent : Int} {t : List Char}

/-- The texts of a function are rows of texts of its lines. -/
theorem rows_of_renders (ht : RendersAll (docs.flatMap fun doc => [Doc.hardLine, doc]) 4 t) :
    ∃ rows, t = rows.flatMap indented ∧ List.Forall₂ (fun doc row => doc.Renders 4 row) docs rows := by
  induction docs generalizing t with
  | nil => exact ⟨[], ht, .nil⟩
  | cons doc docs ih =>
    obtain ⟨_, _, rfl, ⟨hflat, -⟩ | rfl, row, rest, rfl, hrow, hrest⟩ := ht
    · cases hflat
    obtain ⟨rows, rfl, hrows⟩ := ih hrest
    refine ⟨row :: rows, ?_, .cons hrow hrows⟩
    simp [indented]

/-- The tokens of a row. -/
theorem hostTokens_row {ts : List HostToken} {row : List Char} (hvisible : Visible row)
    (h : Lexes 0 row ts 0) : hostTokens row = some (.line 0 :: ts) := by
  have hrow := lexes_line hvisible h 0 [] endsToken_nil
  rw [tokensFrom_nil] at hrow
  simpa [hostTokens] using hrow

theorem beginsVisible_of_spells {doc : Doc} {ts : List HostToken} (h : Spells doc ts) {row : List Char}
    (hrow : doc.Renders indent row) : BeginsVisible row := by
  obtain ⟨hvisible, hlexes⟩ := h indent row hrow
  have htokens := hostTokens_row hvisible (hlexes 0)
  obtain ⟨c, rest, rfl, hspace, hbreak⟩ := hvisible
  refine ⟨c, rest, rfl, ?_⟩
  by_contra hblank
  -- the only blanks that the tokens allow are spaces and line feeds
  obtain rfl | rfl := blank_of_tokensFrom htokens c (by simp) (by simpa using hblank)
  · exact hspace rfl
  · exact hbreak rfl

/-- A trimmed row is one line with its own tokens. -/
theorem row_laidOut {doc : Doc} {ts : List HostToken} {row : List Char} (hspells : Spells doc ts)
    (hsteady : Steady doc) (hrow : doc.Renders indent row) :
    LogicalLine (trimLines row) ∧ hostTokens (trimLines row) = some (.line 0 :: ts) := by
  obtain ⟨hvisible, hlexes⟩ := hspells indent row hrow
  obtain ⟨core, hcore⟩ := hsteady.anywhere 0
  obtain ⟨hopen, hbreaks, -⟩ := hcore indent row hrow
  have htokens := hostTokens_row hvisible (hlexes 0)
  obtain ⟨c, rest, heq, hc⟩ := beginsVisible_of_spells hspells hrow
  refine ⟨⟨?_, ?_, breaksInside_trimLines hbreaks⟩, ?_⟩
  · obtain ⟨c', rest', heq', hne⟩ := hvisible
    obtain ⟨rfl, -⟩ := List.cons.inj (heq.symm.trans heq')
    rw [heq, trimLines_cons hc]
    exact ⟨c, _, rfl, hne⟩
  · rw [openBehind_trimLines, hopen]
  · have := @tokensFrom_trimLines 0 ['\n'] row [] _ (.inl rfl) (by simpa [hostTokens] using htokens)
    simpa [hostTokens] using this

theorem rows_laidOut (hspells : List.Forall₂ Spells docs tss) (hsteady : ∀ doc ∈ docs, Steady doc)
    {rows : List (List Char)} (hrows : List.Forall₂ (fun doc row => doc.Renders indent row) docs rows) :
    (∀ row ∈ rows, BeginsVisible row) ∧
      List.Forall₂ (fun row ts => LogicalLine row ∧ hostTokens row = some (.line 0 :: ts))
        (rows.map trimLines) tss := by
  induction hspells generalizing rows with
  | nil =>
    cases hrows
    exact ⟨List.forall_mem_nil _, .nil⟩
  | cons hdoc _ ih =>
    obtain ⟨hsteady, hmore⟩ := List.forall_mem_cons.mp hsteady
    cases hrows with
    | cons hrow hrows =>
      obtain ⟨hbegins, hlaid⟩ := ih hmore hrows
      exact ⟨List.forall_mem_cons.mpr ⟨beginsVisible_of_spells hdoc hrow, hbegins⟩,
        .cons (row_laidOut hdoc hsteady hrow) hlaid⟩

/-- The rows of a function in two widths. -/
theorem rows_agree {docs : List Doc} (hsteady : ∀ doc ∈ docs, Steady doc) :
    ∃ core, ∀ rows, List.Forall₂ (fun doc row => doc.Renders 4 row) docs rows →
      openBehind 0 ((rows.map trimLines).flatMap indented) = 0 ∧
        withoutInner 0 ((rows.map trimLines).flatMap indented) = core := by
  induction docs with
  | nil =>
    refine ⟨[], fun rows hrows => ?_⟩
    cases hrows
    exact ⟨rfl, rfl⟩
  | cons doc docs ih =>
    obtain ⟨hdoc, hdocs⟩ := List.forall_mem_cons.mp hsteady
    obtain ⟨cores, hcores⟩ := ih hdocs
    -- a row closes the brackets that it opens, so the next one starts outside of brackets again
    obtain ⟨core, hcore⟩ := hdoc.anywhere 0
    refine ⟨indented core ++ cores, fun rows hrows => ?_⟩
    cases hrows with
    | @cons _ row _ rows hrow hrows =>
      obtain ⟨hopen, hbreaks, hcore⟩ := hcore 4 row hrow
      obtain ⟨hopen', hcore'⟩ := hcores rows hrows
      obtain ⟨c, hlast, hc⟩ := hdoc.ends 4 row hrow
      have htrim : withoutInner 0 (trimLines row) = core := by
        rw [withoutInner_trimLines (fun e he => ?_) hbreaks, hcore]
        rw [hlast] at he
        exact Option.some.inj he ▸ hc
      have hfront : ∀ t, openBehind 0 (indented t) = openBehind 0 t ∧
          withoutInner 0 (indented t) = indented (withoutInner 0 t) := fun t => ⟨rfl, rfl⟩
      rw [List.map_cons, List.flatMap_cons, openBehind_append, withoutInner_append, (hfront _).1,
        (hfront _).2, openBehind_trimLines, hopen, htrim]
      exact ⟨hopen', by rw [hcore']⟩

end Rows

/-! ### Functions -/

section Functions

variable {w : HostWriter} {s : Stmt}

/-- An angle is bound on one line. -/
theorem steady_angle {name : String} (h : IsWord name) (value : Float) :
    Steady (.concat [.text (name ++ " = "), (number value).doc]) := by
  refine (steady_number value).last [_] fun d hrow => (steadyAt_quiet (fun c hc => ?_) d).cons hrow
  rw [String.toList_append] at hc
  have hequals : ∀ c ∈ " = ".toList, c ∉ structural := by decide
  exact (List.mem_append.mp hc).elim (h.not_structural c) (hequals c)

theorem header_quiet {name : String} (h : IsWord name) :
    '\n' ∉ header name ∧ EndsVisible (header name) ∧ openBehind 0 (header name) = 0 := by
  have hname := h.not_structural
  have htext : header name = "def ".toList ++ (name.toList ++ "(x, y, z):".toList) := by
    simp [header, String.toList_append]
  rw [htext]
  refine ⟨fun hc => ?_, (EndsVisible.append ⟨':', rfl, by decide⟩ _).append _, ?_⟩
  · rcases List.mem_append.mp hc with hc | hc
    · exact absurd hc (by decide)
    · rcases List.mem_append.mp hc with hc | hc
      · exact hname _ hc (by decide)
      · exact absurd hc (by decide)
  · rw [openBehind_append, openBehind_append]
    show openBehind (openBehind 0 name.toList) "(x, y, z):".toList = 0
    rw [openBehind_of_not_mem hname]
    rfl

/-- All trimmed texts of a function are laid out alike. -/
theorem document_laidOut (hn : s.Named) {doc : Doc} (h : w.document s = .ok doc) :
    ∃ ss last core, simpleStatements s = ss ++ [last] ∧ ∀ t, doc.Renders 0 t →
      LaidOut w.functionName (w.bodyTokens ss last) (trimLines t ++ ['\n']) ∧
        withoutInner 0 (trimLines t ++ ['\n']) = core := by
  obtain ⟨hname, ss, last, lines, final, hsimple, hlines, hfinal, rfl⟩ := document_ok h
  have hword := isWord_of_isIdentifier (checkName_ok.mp hname).1
  have hnamed : ∀ t ∈ ss ++ [last], t.Named := by
    intro t ht
    rw [← hsimple] at ht
    exact named_of_mem_flatten hn (List.mem_of_mem_filter ht)
  have hnamed' : ∀ t ∈ ss, t.Named := fun t ht => hnamed t (List.mem_append_left _ ht)
  have ha0 : IsWord "a0" := isWord_given "a0" (by simp)
  have ha1 : IsWord "a1" := isWord_given "a1" (by simp)
  have hspells := List.Forall₂.cons (spells_angle ha0 w.a0) (.cons (spells_angle ha1 w.a1)
    (List.rel_append (statements_spell hnamed' hlines) (final_spells (hnamed last (by simp)) hfinal)))
  have hsteady := List.forall_mem_cons.mpr ⟨steady_angle ha0 w.a0, List.forall_mem_cons.mpr
    ⟨steady_angle ha1 w.a1, List.forall_mem_append.mpr
      ⟨statements_steady hnamed' hlines, final_steady (hnamed last (by simp)) hfinal⟩⟩⟩
  -- a width only decides on line breaks between brackets, and those are taken out
  obtain ⟨core, hcore⟩ := rows_agree hsteady
  obtain ⟨hbreak, hends, hopen⟩ := header_quiet hword
  refine ⟨ss, last, withoutInner 0 (header w.functionName) ++ (core ++ ['\n']), hsimple, ?_⟩
  rintro t ⟨_, _, rfl, rfl, _, _, rfl, ⟨u, _, rfl, hu, v, _, rfl, hv, rfl⟩, rfl⟩
  obtain ⟨rows, hrows, hrenders⟩ := @rows_of_renders
    (.concat [.text "a0 = ", (number w.a0).doc] :: .concat [.text "a1 = ", (number w.a1).doc] ::
      (lines ++ final)) (u ++ v) ⟨u, v, rfl, hu, hv⟩
  obtain ⟨hbegins, hlaid⟩ := rows_laidOut hspells hsteady hrenders
  obtain ⟨hopen', hcore'⟩ := hcore rows hrenders
  have htrim : trimLines (header w.functionName ++ rows.flatMap indented) =
      header w.functionName ++ (rows.map trimLines).flatMap indented := by
    rw [trimLines_append_of_ends hbreak hends, trimLines_rows hbegins]
  show LaidOut _ _ (trimLines (header w.functionName ++ (u ++ (v ++ []) ++ [])) ++ ['\n']) ∧
    withoutInner 0 (trimLines (header w.functionName ++ (u ++ (v ++ []) ++ [])) ++ ['\n']) = _
  rw [List.append_nil, List.append_nil, hrows, htrim, List.append_assoc]
  refine ⟨⟨_, rfl, hlaid⟩, ?_⟩
  rw [withoutInner_append, withoutInner_append, hopen, hopen', hcore']
  rfl

end Functions

end HostWriter

/-! ### Programs -/

section Programs

open HostWriter Layout

variable {s : Stmt} {width : Int}

/-- What stands in front of a function in the text for some options. -/
def Options.front (options : Options) : List Char :=
  if options.standalone then moduleHeader.toList else []

/-- For the host a function is written behind what stands in front of it. -/
theorem generate_python (options : Options) (htarget : options.target = "python") (s : Stmt) :
    generate options s =
      (options.front ++ ·) <$> generate { options with target := "python", standalone := false } s := by
  have hofName : Target.ofName "python" = .ok .python := rfl
  simp only [generate, htarget, hofName, Options.front, bind, Except.bind]
  cases document ⟨options.functionName, options.a0, options.a1⟩ s with
  | error e => rfl
  | ok doc =>
    dsimp only
    cases (doc.render options.width).mapError WriteError.badWidth with
    | error e => rfl
    | ok text => cases options.standalone <;> rfl

/-- Two texts of one function differ in blanks between brackets only. -/
structure SameFunction (w : HostWriter) (s : Stmt) (text₁ text₂ : List Char) : Prop where
  tokens : ∃ ss last, simpleStatements s = ss ++ [last] ∧
    hostTokens text₁ = some (w.functionTokens ss last) ∧
    hostTokens text₂ = some (w.functionTokens ss last) ∧
    LaidOut w.functionName (w.bodyTokens ss last) text₁ ∧
    LaidOut w.functionName (w.bodyTokens ss last) text₂
  blanks : withoutInner 0 text₁ = withoutInner 0 text₂

/-- A function that has a text in one width has it in every positive one. -/
theorem function_widths (hn : s.Named) {functionName : String} {a0 a1 : Float} {text : List Char}
    (h : generate { width, a0, a1, functionName } s = .ok text) {width' : Int} (hwidth' : 0 < width') :
    ∃ text', generate { width := width', a0, a1, functionName } s = .ok text' ∧
      SameFunction ⟨functionName, a0, a1⟩ s text text' := by
  obtain ⟨hwidth, doc, hdoc⟩ := generate_ok h
  obtain ⟨t, ht, htext⟩ := generate_of_document hwidth hdoc
  obtain ⟨t', ht', htext'⟩ := generate_of_document hwidth' hdoc
  obtain rfl : text = trimLines t ++ ['\n'] := Except.ok.inj (h.symm.trans htext)
  obtain ⟨ss, last, core, hsimple, hlaid⟩ := document_laidOut hn hdoc
  obtain ⟨hlaid₁, hcore₁⟩ := hlaid t ht
  obtain ⟨hlaid₂, hcore₂⟩ := hlaid t' ht'
  -- a program has one list of simple statements
  have htokens : ∀ {width : Int} {text : List Char},
      generate { width, a0, a1, functionName } s = .ok text →
        hostTokens text = some (functionTokens ⟨functionName, a0, a1⟩ ss last) := by
    intro width text h
    obtain ⟨ss', last', hsimple', htokens⟩ := hostTokens_generate hn h
    obtain ⟨rfl, hlast⟩ := List.append_inj' (hsimple'.symm.trans hsimple) rfl
    obtain rfl := List.singleton_inj.mp hlast
    exact htokens
  exact ⟨_, htext', ⟨ss, last, hsimple, htokens htext, htokens htext', hlaid₁, hlaid₂⟩,
    hcore₁.trans hcore₂.symm⟩

/-- A text has a positive width. -/
theorem unparse_width {text : List Char} (h : unparse width s = .ok text) : 0 < width := by
  obtain ⟨doc, -, h⟩ := bind_eq_ok.mp h
  have hrender : doc.render width = .ok text := mapError_eq_ok.mp h
  by_contra hle
  rw [Doc.render, if_pos (by omega)] at hrender
  cases hrender

/-- A program that has a text of its own in one width has it in every positive one, with the same
lexemes. -/
theorem unparse_widths (hn : s.Named) {text : List Char} (h : unparse width s = .ok text)
    {width' : Int} (hwidth' : 0 < width') :
    ∃ text' ls, unparse width' s = .ok text' ∧ lexemes text = some ls ∧ lexemes text' = some ls := by
  have hf : ∀ v ∈ s.numbers, Decimal.isFinite v = true := by
    rw [← Canonical.unspeakable?_eq_none]
    cases hv : Canonical.unspeakable? s.numbers with
    | none => rfl
    | some v =>
      rw [unparse_unspeakable hn hv] at h
      cases h
  obtain ⟨doc, hdoc, hspells⟩ := Canonical.document_writes hn hf
  have htext : ∀ {width : Int}, 0 < width → ∃ text, unparse width s = .ok text ∧
      lexemes text = some (Canonical.spelledProgram s.flatten) := by
    intro width hwidth
    obtain ⟨t, ht, hrender⟩ := render_eq hwidth doc
    refine ⟨trimLines t, ?_, ?_⟩
    · rw [unparse, hdoc]
      simp only [bind, Except.bind, hrender, mapError_ok]
    · rw [lexemes_trimLines, (hspells 0 t ht).1]
  obtain ⟨text₁, htext₁, hl₁⟩ := htext (unparse_width h)
  obtain ⟨text₂, htext₂, hl₂⟩ := htext hwidth'
  obtain rfl : text = text₁ := Except.ok.inj (h.symm.trans htext₁)
  exact ⟨text₂, _, htext₂, hl₁, hl₂⟩

/-- The texts of a program in two positive widths. For the host they are the same function: the same
tokens in the same rows under the line that names the function, each row a line of the program that is
broken between brackets only, and the texts differ in blanks between brackets only. In the language
itself they have the same lexemes. -/
theorem widths_agree {policy : Option Policy} {source : List Char} {p : Program}
    (hp : (parse policy source).outcome = .ok p) {width₁ width₂ : Int}
    (hwidth₂ : 0 < width₂) :
    (∀ (options : Options) (text₁ : List Char), options.target = "python" →
      generate { options with width := width₁ } (.block p) = .ok text₁ →
        ∃ text₂ body₁ body₂, generate { options with width := width₂ } (.block p) = .ok text₂ ∧
          text₁ = options.front ++ body₁ ∧ text₂ = options.front ++ body₂ ∧
          SameFunction ⟨options.functionName, options.a0, options.a1⟩ (.block p) body₁ body₂) ∧
    ∀ text₁, unparse width₁ (.block p) = .ok text₁ →
      ∃ text₂ ls, unparse width₂ (.block p) = .ok text₂ ∧ lexemes text₁ = some ls ∧
        lexemes text₂ = some ls := by
  have hn := named_of_parse hp
  refine ⟨fun options text₁ htarget h => ?_, fun text₁ h => unparse_widths hn h hwidth₂⟩
  rw [generate_python { options with width := width₁ } htarget] at h
  obtain ⟨body₁, hbody₁, rfl⟩ := map_eq_ok.mp h
  obtain ⟨body₂, hbody₂, hsame⟩ := function_widths hn hbody₁ hwidth₂
  refine ⟨options.front ++ body₂, body₁, body₂, ?_, rfl, rfl, hsame⟩
  rw [generate_python { options with width := width₂ } htarget]
  exact map_eq_ok.mpr ⟨body₂, hbody₂, rfl⟩

/-- A program with a call in a call, `max(x, max(y, z))`. -/
def nestedMaximum : Program :=
  [.result (.call .max [.variable "x", .call .max [.variable "y", .variable "z"]])]

theorem nestedMaximum_named : (Stmt.block nestedMaximum).Named := by
  have hx : IsName "x" := isName_given (by decide)
  have hy : IsName "y" := isName_given (by decide)
  have hz : IsName "z" := isName_given (by decide)
  exact ⟨⟨hx, ⟨hy, hz, trivial⟩, trivial⟩, trivial⟩

/-- One row of it. -/
def nestedMaximumRow : List Char := "max(x, max(y, z))".toList

/-- The same in lines of twelve columns. -/
def nestedMaximumLines : List Char :=
  "max(\n    x,\n    max(\n        y,\n        z\n    )\n)".toList

/-- Its function in lines of twelve columns is the one in lines of a hundred, and so are its lexemes. -/
theorem nestedMaximum_agrees : nestedMaximumRow ≠ nestedMaximumLines ∧
    (parse none nestedMaximumRow).outcome = .ok nestedMaximum ∧
    (∃ text₁ text₂, generate { width := 12 } (.block nestedMaximum) = .ok text₁ ∧
      generate {} (.block nestedMaximum) = .ok text₂ ∧
      SameFunction ⟨defaultFunctionName, 0, 0⟩ (.block nestedMaximum) text₁ text₂) ∧
    unparse 12 (.block nestedMaximum) = .ok nestedMaximumLines ∧
    unparse 100 (.block nestedMaximum) = .ok nestedMaximumRow ∧
    ∃ ls, lexemes nestedMaximumLines = some ls ∧ lexemes nestedMaximumRow = some ls := by
  have hlines : unparse 12 (.block nestedMaximum) = .ok nestedMaximumLines := by cbv
  have hrow : unparse 100 (.block nestedMaximum) = .ok nestedMaximumRow := by cbv
  have hparse : (parse none nestedMaximumRow).outcome = .ok nestedMaximum := by
    obtain ⟨text, htext, hparse, -⟩ := unparse_parse nestedMaximum_named
      (by simp [Stmt.numbers, nestedMaximum, numbersOfStatements, Expr.numbers, numbersAll])
      (show (0 : Int) < 100 by decide)
    obtain rfl : nestedMaximumRow = text := Except.ok.inj (hrow.symm.trans htext)
    exact hparse
  obtain ⟨hhost, hown⟩ := @widths_agree _ _ _ hparse 12 100 (by decide)
  obtain ⟨doc, hdoc⟩ : ∃ doc, HostWriter.document ⟨defaultFunctionName, 0, 0⟩
      (.block nestedMaximum) = .ok doc := ⟨_, rfl⟩
  obtain ⟨t, -, htext⟩ := generate_of_document (show (0 : Int) < 12 by decide) hdoc
  -- nothing stands in front of the function
  obtain ⟨text₂, body₁, body₂, htext', hbody₁, hbody₂, hsame⟩ := hhost {} _ rfl htext
  change trimLines t ++ ['\n'] = body₁ at hbody₁
  change text₂ = body₂ at hbody₂
  subst hbody₁ hbody₂
  obtain ⟨text, ls, htext₂, hl₁, hl₂⟩ := hown _ hlines
  obtain rfl : nestedMaximumRow = text := Except.ok.inj (hrow.symm.trans htext₂)
  exact ⟨by decide, hparse, ⟨_, text₂, htext, htext', hsame⟩, hlines, hrow, ls, hl₁, hl₂⟩

end Programs

end FieldLang
