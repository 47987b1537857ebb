/-
Formatting programs.

* `Stmt.WellFormed` : the programs that have a text;
* `unspeakable?`, `document_unspeakable` : an infinite literal or a NaN has none, and the first
  one in a program is reported;
* `parse_unparse` : the text of a program is read as its normal form, so formatting what was
  formatted changes nothing.
-/
import FieldLang.CommandLine.Run
import FieldLang.Proofs.Writing.Parsed

namespace FieldLang

/-- A program whose names are names, whose literals are finite, and whose array assignments have as
many values as names, and at least one. -/
structure Stmt.WellFormed (s : Stmt) : Prop where
  named : s.Named
  finite : ∀ v ∈ s.numbers, Decimal.isFinite v = true

namespace Canonical

open Layout Writing

/-- The first of some literals that is not finite. -/
def unspeakable? (vs : List Float) : Option Float := vs.find? fun v => !Decimal.isFinite v

theorem unspeakable?_eq_none {vs : List Float} :
    unspeakable? vs = none ↔ ∀ v ∈ vs, Decimal.isFinite v = true := by
  rw [unspeakable?, List.find?_eq_none]
  simp

theorem unspeakable?_append {us vs : List Float} {v : Float} :
    unspeakable? (us ++ vs) = some v ↔
      unspeakable? us = some v ∨ (∀ u ∈ us, Decimal.isFinite u = true) ∧ unspeakable? vs = some v := by
  rw [← unspeakable?_eq_none, unspeakable?, List.find?_append]
  show (unspeakable? us).or (unspeakable? vs) = some v ↔ _
  cases unspeakable? us <;> simp

/-- Expressions in a row are written up to the first literal that has no text. -/
theorem exprs_unspeakable {es : List Expr} {v : Float} (hn : ∀ e ∈ es, e.Named)
    (h : ∀ e ∈ es, unspeakable? e.numbers = some v → expr e = .error (.unspeakable v))
    (hv : unspeakable? (es.flatMap Expr.numbers) = some v) : exprs es = .error (.unspeakable v) := by
  induction es with
  | nil => cases hv
  | cons e es ih =>
    rw [List.flatMap_cons, unspeakable?_append] at hv
    rw [exprs]
    rcases hv with hv | ⟨hf, hv⟩
    · rw [h e (List.mem_cons_self ..) hv]
      rfl
    · obtain ⟨r, hr, -⟩ := expr_writes (hn e (List.mem_cons_self ..)) hf
      rw [hr, ih (fun x hx => hn x (List.mem_cons_of_mem _ hx))
        (fun x hx => h x (List.mem_cons_of_mem _ hx)) hv]
      rfl

/-- An expression is written up to the first literal that has no text. -/
theorem expr_unspeakable {e : Expr} {v : Float} (hn : e.Named)
    (hv : unspeakable? e.numbers = some v) : expr e = .error (.unspeakable v) := by
  -- the operands in front have texts, so the failure is that of the first literal without one
  induction e using Expr.induction with
  | number value =>
    have hfound := List.find?_some hv
    obtain rfl : v = value := List.mem_singleton.mp (List.mem_of_find?_eq_some hv)
    rw [expr, number, if_pos hfound]
  | binary op lhs rhs ihl ihr =>
    rw [Expr.numbers, unspeakable?_append] at hv
    rw [expr]
    rcases hv with hv | ⟨hf, hv⟩
    · rw [ihl hn.1 hv]
      rfl
    · obtain ⟨l, hl, -⟩ := expr_writes hn.1 hf
      rw [hl, ihr hn.2 hv]
      rfl
  | negate operand ih =>
    rw [expr, ih hn hv]
    rfl
  | call f args ih =>
    rw [Expr.numbers, numbersAll_eq] at hv
    have hn := namedAll_iff.mp hn
    rw [expr, exprs_unspeakable hn (fun e he => ih e he (hn e he)) hv]
    rfl
  | conditional c t f ihc iht ihf =>
    rw [Expr.numbers, unspeakable?_append, unspeakable?_append] at hv
    rw [expr]
    rcases hv with hv | ⟨hfc, hv | ⟨hft, hv⟩⟩
    · rw [ihc hn.1 hv]
      rfl
    · obtain ⟨c', hc, -⟩ := expr_writes hn.1 hfc
      rw [hc, iht hn.2.1 hv]
      rfl
    · obtain ⟨c', hc, -⟩ := expr_writes hn.1 hfc
      obtain ⟨t', ht, -⟩ := expr_writes hn.2.1 hft
      rw [hc, ht, ihf hn.2.2 hv]
      rfl
  | misplaced display => exact hn.elim
  | _ => cases hv

/-- So is a simple statement. -/
theorem statement_unspeakable {s : Stmt} {v : Float} (hn : s.Named) (hblock : ∀ ss, s ≠ .block ss)
    (hv : unspeakable? s.numbers = some v) : statement s = .error (.unspeakable v) := by
  cases s with
  | assign name value =>
    rw [statement, expr_unspeakable hn.2 hv]
    rfl
  | unpack names value =>
    rw [statement, expr_unspeakable hn.2.2 hv]
    rfl
  | assignEach names values =>
    rw [Stmt.numbers, numbersAll_eq] at hv
    have hvalues := namedAll_iff.mp hn.2.2.2
    rw [statement, exprs_unspeakable hvalues (fun e he => expr_unspeakable (hvalues e he)) hv]
    rfl
  | block ss => exact absurd rfl (hblock ss)
  | result value =>
    cases value with
    | step name op => cases hv
    | _ =>
      rw [statement, expr_unspeakable hn hv]
      · rfl
      · simp
  | empty => cases hv
  | misplaced display => exact hn.elim

/-- So are simple statements in a row. -/
theorem statements_unspeakable {ss : List Stmt} {v : Float} (hn : ∀ t ∈ ss, t.Named)
    (hblock : ∀ t ∈ ss, ∀ ss', t ≠ .block ss')
    (hv : unspeakable? (ss.flatMap Stmt.numbers) = some v) :
    ss.mapM statement = .error (.unspeakable v) := by
  induction ss with
  | nil => cases hv
  | cons t ss ih =>
    have ht := List.mem_cons_self (a := t) (l := ss)
    rw [List.flatMap_cons, unspeakable?_append] at hv
    rw [List.mapM_cons]
    rcases hv with hv | ⟨hf, hv⟩
    · rw [statement_unspeakable (hn t ht) (hblock t ht) hv]
      rfl
    · -- the statements before it are written, and then given up
      obtain ⟨doc, hdoc, -⟩ := statement_writes (hn t ht) (hblock t ht) hf
      rw [hdoc, ih (fun x hx => hn x (List.mem_cons_of_mem _ hx))
        (fun x hx => hblock x (List.mem_cons_of_mem _ hx)) hv]
      rfl

/-- So is a program. -/
theorem document_unspeakable {s : Stmt} {v : Float} (hn : s.Named)
    (hv : unspeakable? s.numbers = some v) : document s = .error (.unspeakable v) := by
  rw [← numbers_flatten] at hv
  rw [document, statements_unspeakable (fun t ht => named_of_mem_flatten hn ht)
    (fun t ht => ne_block_of_mem_flatten ht) hv]
  rfl

end Canonical

/-- A program with an infinite literal or a NaN has no text. -/
theorem unparse_unspeakable {s : Stmt} {v : Float} (hn : s.Named)
    (hv : Canonical.unspeakable? s.numbers = some v) (width : Int) :
    unparse width s = .error (.unspeakable v) := by
  rw [unparse, Canonical.document_unspeakable hn hv]
  rfl

/-! ### Sources -/

section Sources

variable {source : List Char} {p : Program}

/-- A literal of a source is finite or infinite. -/
theorem isUnsigned_of_parse (h : (parse none source).outcome = .ok p) :
    ∀ v ∈ numbersOfStatements p, Decimal.IsUnsigned v := by
  intro v hv
  rw [numbersOfStatements_eq] at hv
  obtain ⟨s, hs, hv⟩ := List.mem_flatMap.mp hv
  exact (read_of_parse h s hs).unsigned v hv

theorem isFinite_infinity : Decimal.isFinite Decimal.infinity = false := by decide

/-- Without an infinite literal the program of a source is well-formed. -/
theorem wellFormed_of_parse (h : (parse none source).outcome = .ok p)
    (hfinite : Decimal.infinity ∉ numbersOfStatements p) : (Stmt.block p).WellFormed := by
  refine ⟨named_of_parse h, fun v hv => ?_⟩
  rw [Stmt.numbers] at hv
  rcases isUnsigned_of_parse h v hv with rfl | ⟨hf, -⟩
  · exact absurd hv hfinite
  · exact hf

/-- With an infinite literal it is reported. -/
theorem unspeakable?_of_parse (h : (parse none source).outcome = .ok p)
    (hinfinite : Decimal.infinity ∈ numbersOfStatements p) :
    Canonical.unspeakable? (Stmt.block p).numbers = some Decimal.infinity := by
  rw [Stmt.numbers]
  cases hv : Canonical.unspeakable? (numbersOfStatements p) with
  | none =>
    have := Canonical.unspeakable?_eq_none.mp hv _ hinfinite
    rw [isFinite_infinity] at this
    cases this
  | some v =>
    rcases isUnsigned_of_parse h v (List.mem_of_find?_eq_some hv) with rfl | ⟨hf, -⟩
    · rfl
    · have hnot := List.find?_some hv
      simp only [hf] at hnot
      cases hnot

end Sources

/-- In any positive width the text of a well-formed program is read as its normal form. What is
read from a source is its own normal form: its text is read as the same program, so formatting
what was formatted changes nothing, unless an infinite literal leaves it without a text. -/
theorem parse_unparse {width : Int} (hwidth : 0 < width) :
    (∀ s : Stmt, s.WellFormed →
      ∃ text, unparse width s = .ok text ∧ (parse none text).outcome = .ok s.normalForm) ∧
    ∀ (source : List Char) (p : Program), (parse none source).outcome = .ok p →
      (Decimal.infinity ∉ numbersOfStatements p →
        ∃ text, unparse width (.block p) = .ok text ∧ (parse none text).outcome = .ok p ∧
          ∀ (path : Path) (output : Option Path) (inPlace compare : Bool),
            formatMisuse? path output inPlace compare = none →
            formatFile path width output inPlace compare (.ok source) =
              formatPlan path output inPlace compare source (text ++ ['\n'])
                (parse none source).reported ∧
            formatFile path width output inPlace compare (.ok (text ++ ['\n'])) =
              formatPlan path output inPlace compare (text ++ ['\n']) (text ++ ['\n'])
                (parse none (text ++ ['\n'])).reported) ∧
      (Decimal.infinity ∈ numbersOfStatements p →
        unparse width (.block p) = .error (.unspeakable Decimal.infinity)) := by
  refine ⟨fun s hs => ?_, fun source p hp => ⟨fun hfinite => ?_, fun hinfinite => ?_⟩⟩
  · obtain ⟨text, htext, hread, -⟩ := unparse_parse hs.named hs.finite hwidth
    exact ⟨text, htext, hread⟩
  -- what was read is well-formed and its own normal form
  · obtain ⟨hn, hf⟩ := wellFormed_of_parse hp hfinite
    obtain ⟨text, htext, hread, hread'⟩ := unparse_parse hn hf hwidth
    rw [normalForm_of_read (read_of_parse hp)] at hread hread'
    refine ⟨text, htext, hread, fun path output inPlace compare hused => ⟨?_, ?_⟩⟩
    · simp only [formatFile, hused, Plan.ofReporting, hp, htext]
    · simp only [formatFile, hused, Plan.ofReporting, hread', htext]
  · exact unparse_unspeakable (named_of_parse hp) (unspeakable?_of_parse hp hinfinite) width

/-- A nested program with a negative literal, `b = -1; [-(b++)], 2 ** b`. -/
def nestedNegative : Stmt :=
  .block [.assign "b" (.number (-1)),
    .block [.result (.negate (.step "b" .increment)), .block []],
    .result (.binary .pow (.number 2) (.variable "b"))]

theorem isName_b : IsName "b" :=
  isName_iff.mpr ⟨'b', [], rfl, by decide, by simp, by decide⟩

theorem nestedNegative_wellFormed : nestedNegative.WellFormed := by
  refine ⟨⟨⟨isName_b, trivial⟩, ⟨isName_b, trivial, trivial⟩, ⟨trivial, isName_b⟩, trivial⟩, ?_⟩
  intro v hv
  have hv : v ∈ [-1, 2] := hv
  rcases List.mem_cons.mp hv with rfl | hv
  · decide
  · cases List.mem_singleton.mp hv
    decide

/-- A literal of four hundred digits. -/
def longLiteral : List Char := List.replicate 400 '9'

theorem parse_longLiteral :
    (parse none longLiteral).outcome = .ok [.result (.number Decimal.infinity)] := by
  have hread : Decimal.readLiteral longLiteral = Decimal.infinity :=
    Decimal.code_inj (by decide +kernel)
  have hl : lexemes longLiteral = some [.number Decimal.infinity] := by
    rw [← hread]
    refine lexemes_number (by decide) (by decide) (fun c hc => ?_) ?_
    · rw [List.eq_of_mem_replicate hc]
      decide
    · rw [longLiteral, List.count_replicate]
      decide
  have hstatement : DerivesStatement [.number Decimal.infinity]
      (.result (.number Decimal.infinity)) [] := by
    refine .result ⟨by simp, by simp, by simp⟩ (.expr .number (.stop ⟨?_, ?_⟩)) <;> simp
  refine parse_of_lexemes (.of_not_mem ?_ ?_) hl (.last (by simp [Ends]) hstatement)
  · decide
  · decide

/-- The nested program is read back flat, in lines of ten columns, and its text is read back as the
same program. -/
theorem nestedNegative_read_back :
    ∃ text, unparse 10 nestedNegative = .ok text ∧
      (parse none text).outcome = .ok [.assign "b" (.negate (.number 1)),
        .result (.negate (.step "b" .increment)),
        .result (.binary .pow (.number 2) (.variable "b"))] ∧
      unparse 10 (.block [.result (.number Decimal.infinity)])
        = .error (.unspeakable Decimal.infinity) := by
  obtain ⟨hwrite, hread⟩ := parse_unparse (show 0 < 10 by decide)
  obtain ⟨text, htext, hback⟩ := hwrite nestedNegative nestedNegative_wellFormed
  have hnormal : nestedNegative.normalForm = [.assign "b" (.negate (.number 1)),
      .result (.negate (.step "b" .increment)),
      .result (.binary .pow (.number 2) (.variable "b"))] := by
    have hone : (- -1 : Float) = 1 := Decimal.code_inj (by decide)
    have hsigned : Decimal.signBit (-1) = true := by decide
    have hplain : Decimal.signBit 2 = false := by decide
    simp [Stmt.normalForm, nestedNegative, Stmt.flatten, flattenAll, Stmt.normal, Expr.normal,
      hone, hsigned, hplain]
  refine ⟨text, htext, hnormal ▸ hback, ?_⟩
  exact (hread _ _ parse_longLiteral).2 (List.mem_singleton.mpr rfl)

end FieldLang
