/-
Written programs are read back.

* `Stmt.numbers` : the literals of a program;
* `statement_writes`, `document_writes` : statements and programs without misplaced nodes are
  written, and spelled as they should be;
* `parse_of_lexemes` : what a text without loops is read as;
* `unparse_parse` : a written program is read as its normal form.
-/
import FieldLang.Proofs.Writing.Texts

namespace FieldLang

mutual

/-- The literals of a statement, in the order in which they are written. -/
def Stmt.numbers : Stmt → List Float
  | .assign _ value | .unpack _ value | .result value => value.numbers
  | .assignEach _ values => numbersAll values
  | .block statements => numbersOfStatements statements
  | .empty | .misplaced _ => []

/-- The literals of statements in a row. -/
def numbersOfStatements : List Stmt → List Float
  | [] => []
  | s :: ss => s.numbers ++ numbersOfStatements ss

end

theorem numbersOfStatements_eq (ss : List Stmt) :
    numbersOfStatements ss = ss.flatMap Stmt.numbers := by
  induction ss with
  | nil => rfl
  | cons s ss ih => rw [numbersOfStatements, ih, List.flatMap_cons]

/-- A statement and its simple statements have the same literals. -/
theorem numbers_flatten (s : Stmt) : s.flatten.flatMap Stmt.numbers = s.numbers := by
  induction s using Stmt.induction with
  | block statements ih =>
    rw [Stmt.flatten, Stmt.numbers, numbersOfStatements_eq]
    induction statements with
    | nil => rfl
    | cons s ss ih' =>
      rw [flattenAll, List.flatMap_append, List.flatMap_cons, ih s (List.mem_cons_self ..),
        ih' fun x hx => ih x (List.mem_cons_of_mem _ hx)]
  | _ => simp [Stmt.flatten]

namespace Canonical

open Layout Loops Writing

/-! ### Statements -/

theorem lexemes_names {names : List String} (h : ∀ name ∈ names, IsName name) :
    lexemes (", ".intercalate names).toList = some (spelledNames names) ∧
      Inert (", ".intercalate names).toList := by
  have hcomma : lexemes [',', ' '] = some [.comma] := by
    rw [lexemes_token (by decide) (show scan ',' [' '] = .ok (.comma, 0) from rfl), List.drop_zero,
      lexemes_blank (by decide), lexemes_nil]
    rfl
  induction names with
  | nil => exact ⟨lexemes_nil, .of_not_mem (by decide) (by decide)⟩
  | cons name names ih =>
    have hname := h name (List.mem_cons_self ..)
    have hinert := inert_of_isAlphanum (isAlphanum_of_isName hname)
    obtain ⟨hl, hi⟩ := ih fun x hx => h x (List.mem_cons_of_mem _ hx)
    -- a comma stands only between two names
    cases names with
    | nil =>
      rw [String.intercalate_singleton]
      exact ⟨hname, hinert⟩
    | cons name' names =>
      rw [String.intercalate_cons_cons, String.toList_append, String.toList_append,
        List.append_assoc]
      have hmore : lexemes ([',', ' '] ++ (", ".intercalate (name' :: names)).toList)
          = some ([.comma] ++ spelledNames (name' :: names)) :=
        lexemes_append_some (u := [','] ++ [' ']) (separator_apart (by decide)) hcomma hl
      refine ⟨lexemes_append_some (apart_separator (by decide)) hname hmore, ?_⟩
      exact hinert.append (Inert.append (.of_not_mem (by decide) (by decide)) hi)

/-- Names between square brackets. -/
theorem spells_nameList {names : List String} (h : ∀ name ∈ names, IsName name) :
    Spells (nameList names) (.lbracket :: (spelledNames names ++ [.rbracket])) := by
  obtain ⟨hl, hi⟩ := lexemes_names h
  have hopen : lexemes "[".toList = some [.lbracket] := lexemes_alone (by decide) rfl
  have hclose : lexemes "]".toList = some [.rbracket] := lexemes_alone (by decide) rfl
  refine spells_text ?_ ?_
  · rw [String.toList_append, String.toList_append]
    show _ = some ((.lbracket :: spelledNames names) ++ [.rbracket])
    have hleft : lexemes ("[".toList ++ (", ".intercalate names).toList)
        = some (.lbracket :: spelledNames names) :=
      lexemes_append_some (u := [] ++ ['[']) (separator_apart (by decide)) hopen hl
    exact lexemes_append_some (apart_separator (c := ']') (by decide)) hleft hclose
  · rw [String.toList_append, String.toList_append]
    exact (Inert.append (.of_not_mem (by decide) (by decide)) hi).append
      (.of_not_mem (by decide) (by decide))

theorem within_zero (r : Ranked) : r.within 0 = r.doc := if_neg (Nat.not_lt_zero _)

/-- Every simple statement without misplaced nodes, whose literals are finite, is written. -/
theorem statement_writes {s : Stmt} (hn : s.Named) (hblock : ∀ ss, s ≠ .block ss)
    (hf : ∀ v ∈ s.numbers, Decimal.isFinite v = true) :
    ∃ doc, statement s = .ok doc ∧ Spells doc (spelledStatement s) := by
  cases s with
  | assign name value =>
    obtain ⟨r, hr, hw⟩ := expr_writes hn.2 hf
    rw [statement, hr]
    refine ⟨_, rfl, ?_⟩
    simp only [within_zero]
    exact gap_assign.between (spells_name hn.1) (spellsRow_single hw.spells)
  | unpack names value =>
    obtain ⟨r, hr, hw⟩ := expr_writes hn.2.2 hf
    rw [statement, hr]
    refine ⟨_, rfl, ?_⟩
    simp only [within_zero, spelledStatement]
    simpa using (gap_assign.between (spells_nameList hn.2.1) (spellsRow_single hw.spells)).concat
  | assignEach names values =>
    obtain ⟨-, hnames, -, hvalues⟩ := hn
    rw [Stmt.numbers, numbersAll_eq] at hf
    obtain ⟨docs, hdocs, hspells⟩ := exprs_writes fun e he =>
      expr_writes (namedAll_iff.mp hvalues e he)
        fun v hv => hf v (List.mem_flatMap.mpr ⟨e, he, hv⟩)
    rw [statement, hdocs]
    refine ⟨_, rfl, ?_⟩
    rw [spelledStatement, spelledAll_eq]
    have hlist := spellsRow_single (spells_list hspells)
    simpa using (gap_assign.between (spells_nameList hnames) hlist).concat
  | block ss => exact absurd rfl (hblock ss)
  | result value =>
    obtain ⟨r, hr, hw⟩ := expr_writes hn hf
    -- a step alone is written in brackets, since without them it is read as an assignment
    cases value with
    | step name op =>
      rw [statement, hr]
      refine ⟨_, rfl, ?_⟩
      simp only [within_zero]
      have hspells := spells_brackets hw.spells
      rw [spelled] at hspells
      exact hspells
    | _ =>
      rw [statement, hr]
      · refine ⟨_, rfl, ?_⟩
        simp only [within_zero]
        exact hw.spells
      · simp
  | empty => exact ⟨_, rfl, spells_text lexemes_nil (.of_not_mem (by decide) (by decide))⟩
  | misplaced display => exact hn.elim

/-! ### Programs -/

theorem statements_write {ss : List Stmt} (hn : ∀ s ∈ ss, s.Named)
    (hblock : ∀ s ∈ ss, ∀ ss', s ≠ .block ss')
    (hf : ∀ v ∈ ss.flatMap Stmt.numbers, Decimal.isFinite v = true) :
    ∃ docs, ss.mapM statement = .ok docs ∧
      List.Forall₂ Spells docs (ss.map spelledStatement) := by
  induction ss with
  | nil => exact ⟨[], rfl, .nil⟩
  | cons s ss ih =>
    rw [List.flatMap_cons] at hf
    obtain ⟨doc, hdoc, hspells⟩ := statement_writes (hn s (List.mem_cons_self ..))
      (hblock s (List.mem_cons_self ..)) fun v hv => hf v (List.mem_append_left _ hv)
    obtain ⟨docs, hdocs, hrest⟩ := ih (fun x hx => hn x (List.mem_cons_of_mem _ hx))
      (fun x hx => hblock x (List.mem_cons_of_mem _ hx))
      fun v hv => hf v (List.mem_append_right _ hv)
    refine ⟨doc :: docs, ?_, .cons hspells hrest⟩
    rw [List.mapM_cons, hdoc, hdocs]
    rfl

/-- Every program without misplaced nodes, whose literals are finite, is written. -/
theorem document_writes {s : Stmt} (hn : s.Named)
    (hf : ∀ v ∈ s.numbers, Decimal.isFinite v = true) :
    ∃ doc, document s = .ok doc ∧ Spells doc (spelledProgram s.flatten) := by
  rw [← numbers_flatten] at hf
  obtain ⟨docs, hdocs, hspells⟩ := statements_write (fun t ht => named_of_mem_flatten hn ht)
    (fun t ht => ne_block_of_mem_flatten ht) hf
  rw [document, hdocs]
  refine ⟨_, rfl, ?_⟩
  show Spells (Doc.joined comma _) _
  rw [spelledProgram]
  cases endsEmpty s.flatten with
  | true =>
    have hlast : Spells (.text "") [] :=
      spells_text lexemes_nil (.of_not_mem (by decide) (by decide))
    exact spells_joined (List.rel_append hspells (.cons hlast .nil))
  | false => simpa using spells_joined hspells

end Canonical

/-! ### Reading a written program -/

/-- What a text is read as that has no loops and whose lexemes the grammar derives. -/
theorem parse_of_lexemes {text : List Char} {ls : List Lexeme} {p : Program}
    (hi : Loops.Inert text) (hl : lexemes text = some ls) (hp : DerivesProgram ls p) :
    (parse none text).outcome = .ok p := by
  obtain ⟨ts, hts, hlexemes⟩ : ∃ ts, tokens text = .ok ts ∧ lexemesOf ts = ls := by
    rw [lexemes] at hl
    cases ht : tokens text with
    | error e =>
      rw [ht] at hl
      cases hl
    | ok ts =>
      rw [ht] at hl
      cases hl
      exact ⟨ts, rfl, rfl⟩
  have hprogram : program text.length ts = .ok p := hp.accepts ts hlexemes
  have htokens : (parseTokens text.length none ts).outcome = .ok p := by
    rw [parseTokens, hprogram]
    by_cases he : endsInResult p = true
    · simp [Reporting.ofExcept, he]
    · simp [Reporting.ofExcept, he, report]
  rw [parse, Loops.expand_inert hi]
  simp only [Reporting.mapError, Reporting.ofExcept, mapError_ok, Reporting.bind_ok, hts,
    htokens]

/-- A program is written in any positive width, and its text is read as its normal form. -/
theorem unparse_parse {s : Stmt} (hn : s.Named) (hf : ∀ v ∈ s.numbers, Decimal.isFinite v = true)
    {width : Int} (hwidth : 0 < width) :
    ∃ text, unparse width s = .ok text ∧ (parse none text).outcome = .ok s.normalForm ∧
      (parse none (text ++ ['\n'])).outcome = .ok s.normalForm := by
  obtain ⟨doc, hdoc, hspells⟩ := Canonical.document_writes hn hf
  obtain ⟨t, ht, hrender⟩ := Layout.render_eq hwidth doc
  obtain ⟨hl, hi⟩ := hspells 0 t ht
  -- trimming the lines takes blanks away, which separate nothing there
  have hl' : lexemes (Layout.trimLines t) = some (Canonical.spelledProgram s.flatten) := by
    rw [Layout.lexemes_trimLines, hl]
  have hp : DerivesProgram (Canonical.spelledProgram s.flatten) s.normalForm :=
    Canonical.derives_spelledProgram (fun t ht => named_of_mem_flatten hn ht)
      fun t ht => ne_block_of_mem_flatten ht
  refine ⟨Layout.trimLines t, ?_, parse_of_lexemes hi.trimLines hl' hp, ?_⟩
  · rw [unparse, hdoc]
    simp only [bind, Except.bind, hrender, mapError_ok]
  · refine parse_of_lexemes (hi.trimLines.append (.of_not_mem (by decide) (by decide))) ?_ hp
    rw [Layout.lexemes_append_blanks (by decide), hl']

end FieldLang