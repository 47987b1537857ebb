/-
Written programs have no needless brackets.

* `TightDoc` : a document whose texts are tight;
* `expr_tight`, `statement_tight`, `document_tight` : what expressions, statements and programs are
  written as;
* `unparse_brackets_needed` : without a pair of its brackets, the text of a program is not read as the
  program.

Design notes: the text without the pair has lexemes that weigh less than any row that spells the program
and has no two signs next to each other.
-/
import FieldLang.Proofs.Writing.Formatting
import FieldLang.Proofs.Writing.Tight
import Mathlib

namespace FieldLang

namespace Canonical

open Layout Writing

/-! ### Documents -/

/-- Every text of the document is tight. -/
def TightDoc (s : Spot) (doc : Doc) (ls : List Lexeme) (s' : Spot) : Prop :=
  ∀ indent t, doc.Renders indent t → Tight s t ls s'

/-- Every text of the document leads somewhere from where an operand begins. -/
def TightItem (doc : Doc) (ls : List Lexeme) : Prop := ∃ s', TightDoc .start doc ls s'

section Documents

variable {s s' : Spot} {doc : Doc} {docs : List Doc} {ls : List Lexeme} {lss : List (List Lexeme)}

/-- A document without brackets. -/
theorem tightDoc_of_spells (h : Spells doc ls) (hrun : s.run ls = some s') (hl : .lparen ∉ ls)
    (hr : .rparen ∉ ls) : TightDoc s doc ls s' :=
  fun indent t ht => tight_of_lexemes (h indent t ht).1 hrun hl hr

theorem tight_brackets (h : TightDoc .start doc ls .operand) :
    TightDoc .start (.concat [.text "(", doc, .text ")"]) (.lparen :: (ls ++ [.rparen])) .operand := by
  rintro indent t ⟨_, _, rfl, rfl, u, _, rfl, hu, _, _, rfl, rfl, rfl⟩
  exact (h indent u hu).brackets

/-- An expression in its place. -/
theorem tight_within {r : Ranked} (h : TightDoc .start r.doc ls .operand) (least : Nat) :
    TightDoc .start (r.within least) (bracketedIf (r.rank < least) ls) .operand := by
  rw [Ranked.within, bracketedIf]
  by_cases hr : r.rank < least
  · rw [if_pos hr, if_pos (by simpa using hr)]
    exact tight_brackets h
  · rw [if_neg hr, if_neg (by simpa using hr)]
    exact h

theorem tight_nil : Tight s [] [] s := tight_of_lexemes lexemes_nil rfl (by simp) (by simp)

/-- Documents with commas between them. -/
theorem tight_joined (h : List.Forall₂ TightItem docs lss) :
    TightItem (Doc.joined comma docs) (commaSeparated lss) := by
  cases h with
  | nil =>
    refine ⟨.start, ?_⟩
    rintro indent t rfl
    exact tight_nil
  | @cons doc ls docs lss hfirst hrest =>
    induction hrest generalizing doc ls with
    | nil =>
      obtain ⟨s', hfirst⟩ := hfirst
      refine ⟨s', ?_⟩
      rintro indent t ⟨u, _, rfl, hu, rfl⟩
      simpa [commaSeparated] using hfirst indent u hu
    | cons hsecond _ ih =>
      obtain ⟨s₁, hfirst⟩ := hfirst
      obtain ⟨s', hmore⟩ := ih hsecond
      refine ⟨s', ?_⟩
      rintro indent t ⟨u, _, rfl, hu, g, v, rfl, hg, hv⟩
      have hrow := (hfirst indent u hu).between gap_comma hg rfl (by simp) (by simp) (hmore indent v hv)
      exact hrow

/-- What stands between two brackets, wherever the lines are broken. -/
theorem tight_bracketed {opening closing : String} {indent indent' : Int} {t : List Char}
    (h : List.Forall₂ TightItem docs lss)
    (ht : (Doc.bracketed opening docs closing indent).Renders indent' t) :
    ∃ x s', t = opening.toList ++ (x ++ closing.toList) ∧
      Tight .start x (commaSeparated lss) s' := by
  cases h with
  | nil =>
    obtain rfl := ht
    exact ⟨[], .start, String.toList_append, tight_nil⟩
  | @cons doc ls docs lss hfirst hrest =>
    obtain ⟨s', hbody⟩ := tight_joined (.cons hfirst hrest)
    obtain ⟨_, _, rfl, rfl, _, _, rfl, ⟨soft, _, rfl, hsoft, body, _, rfl, hd, rfl⟩,
      soft', _, rfl, hsoft', _, _, rfl, rfl, rfl⟩ := ht
    refine ⟨soft ++ (body ++ soft'), s', by simp, ?_⟩
    exact ((hbody _ _ hd).append_blanks (blank_of_renders (by decide) hsoft')).blanks_append
      (blank_of_renders (by decide) hsoft)

theorem tight_call (f : Builtin) (h : List.Forall₂ TightItem docs lss) :
    TightDoc s (Doc.bracketed (f.mnemonic ++ "(") docs ")" indentation)
      (.function f :: .lparen :: (commaSeparated lss ++ [.rparen])) .operand := by
  intro indent t ht
  obtain ⟨x, s', rfl, hx⟩ := tight_bracketed h ht
  have hcall := Tight.call (s := s) f hx
  rw [String.toList_append, List.append_assoc]
  exact hcall

theorem gap_lbracket : Gap (.text "[") [.lbracket] :=
  gap_text (lexemes_alone (by decide) rfl) (.of_not_mem (by decide) (by decide))
    (show _ = '[' :: [] from rfl) (by decide) (show _ = [] ++ ['['] from rfl) (by decide)

theorem tight_list (h : List.Forall₂ TightItem docs lss) :
    TightDoc s (Doc.bracketed "[" docs "]" indentation)
      (.lbracket :: (commaSeparated lss ++ [.rbracket])) .operand := by
  intro indent t ht
  obtain ⟨x, s', rfl, hx⟩ := tight_bracketed h ht
  have hclose : Tight s' [']'] [.rbracket] .operand :=
    tight_of_lexemes (lexemes_alone (by decide) rfl) rfl (by simp) (by simp)
  have hitems : Tight .start (x ++ [']']) (commaSeparated lss ++ [.rbracket]) .operand :=
    hx.append hclose (by decide) (by decide)
  exact hitems.behind gap_lbracket (show (Doc.text "[").Renders 0 ['['] from rfl) rfl (by simp)
    (by simp)

end Documents

/-! ### Expressions -/

/-- What an expression is written as: tight texts, with one sign in front of an operand at most. -/
structure Compact (e : Expr) (r : Ranked) : Prop where
  tight : TightDoc .start r.doc (spelled e) .operand
  begins : ∀ indent t, r.doc.Renders indent t → BeginsSigned t

theorem BeginsWord.operand {doc : Doc} (h : BeginsWord doc) :
    ∀ indent t, doc.Renders indent t → BeginsOperand t := by
  intro indent t ht
  obtain ⟨c, rest, rfl, hc⟩ := h indent t ht
  exact ⟨c, rest, rfl, .inr hc⟩

theorem operand_brackets {doc : Doc} :
    ∀ indent t, (Doc.concat [.text "(", doc, .text ")"]).Renders indent t → BeginsOperand t := by
  rintro indent t ⟨_, _, rfl, rfl, -⟩
  exact ⟨'(', _, rfl, .inl rfl⟩

theorem begins_within {e : Expr} {r : Ranked} (h : Compact e r) (least : Nat) :
    ∀ indent t, (r.within least).Renders indent t → BeginsSigned t := by
  rw [Ranked.within]
  by_cases hr : r.rank < least
  · rw [if_pos hr]
    exact fun indent t ht => .inl (operand_brackets indent t ht)
  · rw [if_neg hr]
    exact h.begins

section Signs

variable {e : Expr} {r : Ranked}

/-- Brackets behind a sign. -/
theorem tight_minus_brackets (h : Compact e r) :
    TightDoc .start (.concat [.text "-", .concat [.text "(", r.doc, .text ")"]])
      (.operator .sub :: .lparen :: (spelled e ++ [.rparen])) .operand := by
  rintro indent t ⟨_, _, rfl, rfl, _, _, rfl, ⟨_, _, rfl, rfl, u, _, rfl, hu, _, _, rfl, rfl, rfl⟩, rfl⟩
  simpa using (h.tight indent u hu).minus_brackets (h.begins indent u hu)

/-- A word behind a sign. -/
theorem tight_minus_word (h : Compact e r) (hword : BeginsWord r.doc) :
    TightDoc .start (.concat [.text "-", r.doc]) (.operator .sub :: spelled e) .operand := by
  rintro indent t ⟨_, _, rfl, rfl, u, _, rfl, hu, rfl⟩
  obtain ⟨c, rest, rfl, hc⟩ := hword indent u hu
  simpa using (h.tight indent _ hu).minus hc

theorem begins_minus {doc : Doc} (h : ∀ indent t, doc.Renders indent t → BeginsOperand t) :
    ∀ indent t, (Doc.concat [.text "-", doc]).Renders indent t → BeginsSigned t := by
  rintro indent t ⟨_, _, rfl, rfl, u, _, rfl, hu, rfl⟩
  rw [List.append_nil]
  exact .inr ⟨u, rfl, h indent u hu⟩

/-- A sign in front of an operand in its place. -/
theorem compact_minus (hw : Writes e r) (h : Compact e r) :
    Compact (.negate e)
      ⟨.concat [.text "-", if startsWithMinus e then
        .concat [.text "(", r.within signPower, .text ")"] else r.within signPower], signPower⟩ := by
  cases hs : startsWithMinus e with
  | true =>
    -- what begins with a minus is in brackets for that reason only
    have hrank : ¬r.rank < signPower := by rw [hw.rank, rank_of_startsWithMinus hs]; simp
    have hspelled : spelled (.negate e) = .operator .sub :: .lparen :: (spelled e ++ [.rparen]) := by
      rw [spelled, hs, ← hw.rank, decide_eq_false hrank]
      rfl
    rw [Ranked.within, if_neg hrank]
    refine ⟨?_, begins_minus operand_brackets⟩
    rw [hspelled]
    exact tight_minus_brackets h
  | false =>
    by_cases hrank : r.rank < signPower
    · have hspelled : spelled (.negate e) = .operator .sub :: .lparen :: (spelled e ++ [.rparen]) := by
        rw [spelled, hs, ← hw.rank, decide_eq_true hrank]
        rfl
      rw [Ranked.within, if_pos hrank]
      refine ⟨?_, begins_minus operand_brackets⟩
      rw [hspelled]
      exact tight_minus_brackets h
    · have hspelled : spelled (.negate e) = .operator .sub :: spelled e := by
        rw [spelled, hs, ← hw.rank, decide_eq_false hrank]
        rfl
      have hword : BeginsWord r.doc := hw.word (Nat.not_lt.mp (hw.rank ▸ hrank)) hs
      rw [Ranked.within, if_neg hrank]
      refine ⟨?_, begins_minus hword.operand⟩
      rw [hspelled]
      exact tight_minus_word h hword

end Signs

section Composites

variable {lhs rhs condition ifTrue ifFalse : Expr} {l r c t f : Ranked}

theorem tight_place {e : Expr} (hw : Writes e r) (h : Compact e r) (least : Nat) :
    TightDoc .start (r.within least) (bracketedIf (rank e < least) (spelled e)) .operand := by
  rw [← hw.rank]
  exact tight_within h.tight least

/-- An operator between its operands. -/
theorem compact_binary (op : BinOp) (hlw : Writes lhs l) (hl : Compact lhs l) (hrw : Writes rhs r)
    (hr : Compact rhs r) :
    Compact (.binary op lhs rhs)
      ⟨.concat [l.within op.leftPower, .text (" " ++ op.spelling ++ " "), r.within op.rightPower],
        op.precedence⟩ := by
  refine ⟨?_, ?_⟩
  · rintro indent t ⟨u, _, rfl, hu, g, _, rfl, hg, v, _, rfl, hv, rfl⟩
    have hleft := tight_place hlw hl op.leftPower indent u hu
    have hright := tight_place hrw hr op.rightPower indent v hv
    have hoperator : Spot.operand.run [.operator op] = some .start := by
      rw [Spot.run_cons, Spot.step?_operator]
      rfl
    have hrow := hleft.between (gap_operator op) hg hoperator (by simp) (by simp) hright
    rw [spelled, List.append_nil]
    exact hrow
  · rintro indent t ⟨u, _, rfl, hu, -⟩
    exact (begins_within hl _ indent u hu).append _

/-- A condition and its two branches, the first of which takes any expression. -/
theorem compact_conditional (hcw : Writes condition c) (hc : Compact condition c)
    (ht : Compact ifTrue t) (hfw : Writes ifFalse f) (hf : Compact ifFalse f) :
    Compact (.conditional condition ifTrue ifFalse)
      ⟨.concat [c.within (conditionalRank + 1), .text " ? ", t.within 0, .text " : ",
        f.within conditionalRank], conditionalRank⟩ := by
  refine ⟨?_, ?_⟩
  · rintro indent text
      ⟨u, _, rfl, hu, g, _, rfl, hg, v, _, rfl, hv, g', _, rfl, hg', w, _, rfl, hw, rfl⟩
    have hcondition := tight_place hcw hc (conditionalRank + 1) indent u hu
    have htrue := tight_within ht.tight 0 indent v hv
    have hfalse := tight_place hfw hf conditionalRank indent w hw
    have hbranches := htrue.between gap_colon hg' rfl (by simp) (by simp) hfalse
    have hrow := hcondition.between gap_question hg rfl (by simp) (by simp) hbranches
    rw [spelled, List.append_nil]
    exact hrow
  · rintro indent text ⟨u, _, rfl, hu, -⟩
    exact (begins_within hc _ indent u hu).append _

/-- The arguments of a call, in a list if there may be any number of them. -/
theorem compact_call (fn : Builtin) {args : List Expr} {docs : List Doc}
    (h : List.Forall₂ TightItem docs (args.map spelled)) :
    Compact (.call fn args) ⟨Doc.bracketed (fn.mnemonic ++ "(")
      (if fn.variadic then [Doc.bracketed "[" docs "]" indentation] else docs) ")" indentation,
      atomRank⟩ := by
  refine ⟨?_, fun indent t ht => .inl ((beginsWord_call fn _).operand indent t ht)⟩
  rw [spelled, spelledAll_eq]
  by_cases hvariadic : fn.variadic = true
  · rw [if_pos hvariadic, if_pos hvariadic]
    simpa [commaSeparated] using tight_call fn (.cons ⟨_, tight_list h⟩ .nil)
  · rw [if_neg hvariadic, if_neg hvariadic]
    exact tight_call fn h

end Composites

/-- An expression that is written as a word without brackets. -/
theorem compact_atom {e : Expr} {r : Ranked} (hw : Writes e r) (hrank : signPower ≤ rank e)
    (hsign : startsWithMinus e = false) (hrun : Spot.start.run (spelled e) = some .operand)
    (hl : .lparen ∉ spelled e) (hr : .rparen ∉ spelled e) : Compact e r :=
  ⟨tightDoc_of_spells hw.spells hrun hl hr,
    fun indent t ht => .inl ((hw.word hrank hsign).operand indent t ht)⟩

/-- Expressions in a row. -/
theorem exprs_tight {es : List Expr}
    (h : ∀ e ∈ es, ∃ r, expr e = .ok r ∧ Compact e r) :
    ∃ docs, exprs es = .ok docs ∧ List.Forall₂ TightItem docs (es.map spelled) := by
  induction es with
  | nil => exact ⟨[], rfl, .nil⟩
  | cons e es ih =>
    obtain ⟨r, hr, hc⟩ := h e (List.mem_cons_self ..)
    obtain ⟨docs, hdocs, htight⟩ := ih fun x hx => h x (List.mem_cons_of_mem _ hx)
    refine ⟨r.doc :: docs, ?_, .cons ⟨.operand, hc.tight⟩ htight⟩
    rw [exprs, hr, hdocs]
    rfl

/-- Every expression without misplaced nodes, whose literals are finite and have no sign, is written so
that its brackets count. -/
theorem expr_tight {e : Expr} (hn : e.Named)
    (hv : ∀ v ∈ e.numbers, Decimal.isFinite v = true ∧ Decimal.signBit v = false) :
    ∃ r, expr e = .ok r ∧ Compact e r := by
  obtain ⟨r, hr, hw⟩ := expr_writes hn fun v hmem => (hv v hmem).1
  refine ⟨r, hr, ?_⟩
  have hatom : signPower ≤ atomRank := by decide
  -- what is written is known; the induction adds that its brackets count, node by node
  induction e using Expr.induction generalizing r with
  | number value =>
    have hsign := (hv value (by simp [Expr.numbers])).2
    have hrank : signPower ≤ rank (.number value) := by
      rw [rank, if_neg (by simp [hsign])]
      decide
    have hspelled : spelled (.number value) = [.number value] := if_neg (by simp [hsign])
    refine compact_atom hw hrank hsign ?_ ?_ ?_ <;> rw [hspelled]
    · rfl
    · simp
    · simp
  | name name =>
    refine compact_atom hw hatom rfl ?_ ?_ ?_ <;> rw [spelled]
    · rfl
    · simp
    · simp
  | step name op =>
    refine compact_atom hw hatom rfl ?_ ?_ ?_ <;> rw [spelled]
    · rfl
    · simp
    · simp
  | binary op lhs rhs ihl ihr =>
    rw [Expr.numbers] at hv
    have hvl := fun v hmem => hv v (List.mem_append_left _ hmem)
    have hvr := fun v hmem => hv v (List.mem_append_right _ hmem)
    obtain ⟨l, hl, hlw⟩ := expr_writes hn.1 fun v hmem => (hvl v hmem).1
    obtain ⟨r', hr', hrw⟩ := expr_writes hn.2 fun v hmem => (hvr v hmem).1
    have hexpr : expr (.binary op lhs rhs) = .ok ⟨.concat [l.within op.leftPower,
        .text (" " ++ op.spelling ++ " "), r'.within op.rightPower], op.precedence⟩ := by
      rw [expr, hl, hr', ← left_eq, ← right_eq]
      rfl
    obtain rfl := Except.ok.inj (hr.symm.trans hexpr)
    exact compact_binary op hlw (ihl hn.1 hvl l hl hlw) hrw (ihr hn.2 hvr r' hr' hrw)
  | negate operand ih =>
    obtain ⟨r', hr', hrw⟩ := expr_writes (e := operand) hn fun v hmem => (hv v hmem).1
    rw [expr, hr'] at hr
    cases hr
    exact compact_minus hrw (ih hn hv r' hr' hrw)
  | call f args ih =>
    rw [Expr.numbers, numbersAll_eq] at hv
    obtain ⟨docs, hdocs, htight⟩ := exprs_tight fun e he => by
      have hve := fun v hmem => hv v (List.mem_flatMap.mpr ⟨e, he, hmem⟩)
      have hne := namedAll_iff.mp hn e he
      obtain ⟨r', hr', hrw⟩ := expr_writes hne fun v hmem => (hve v hmem).1
      exact ⟨r', hr', ih e he hne hve r' hr' hrw⟩
    rw [expr, hdocs] at hr
    cases hr
    exact compact_call f htight
  | conditional c t f ihc iht ihf =>
    rw [Expr.numbers] at hv
    have hvc := fun v hmem => hv v (List.mem_append_left _ hmem)
    have hvt := fun v hmem => hv v (List.mem_append_right _ (List.mem_append_left _ hmem))
    have hvf := fun v hmem => hv v (List.mem_append_right _ (List.mem_append_right _ hmem))
    obtain ⟨c', hc, hcw⟩ := expr_writes hn.1 fun v hmem => (hvc v hmem).1
    obtain ⟨t', ht, htw⟩ := expr_writes hn.2.1 fun v hmem => (hvt v hmem).1
    obtain ⟨f', hf, hfw⟩ := expr_writes hn.2.2 fun v hmem => (hvf v hmem).1
    rw [expr, hc, ht, hf] at hr
    cases hr
    exact compact_conditional hcw (ihc hn.1 hvc c' hc hcw) (iht hn.2.1 hvt t' ht htw) hfw
      (ihf hn.2.2 hvf f' hf hfw)
  | misplaced display => exact hn.elim

/-! ### Statements and programs -/

theorem run_spelledNames {names : List String} :
    ∃ s, Spot.start.run (spelledNames names) = some s := by
  induction names with
  | nil => exact ⟨_, rfl⟩
  | cons name names ih =>
    cases names with
    | nil => exact ⟨_, rfl⟩
    | cons name' names => exact ih

theorem not_mem_spelledNames {names : List String} :
    .lparen ∉ spelledNames names ∧ .rparen ∉ spelledNames names := by
  induction names with
  | nil => simp [spelledNames]
  | cons name names ih =>
    cases names with
    | nil => simp [spelledNames]
    | cons name' names => simpa [spelledNames] using ih

/-- Names between square brackets. -/
theorem tight_nameList {names : List String} (h : ∀ name ∈ names, IsName name) :
    TightDoc .start (nameList names) (.lbracket :: (spelledNames names ++ [.rbracket])) .operand := by
  obtain ⟨s, hs⟩ := @run_spelledNames names
  obtain ⟨hl, hr⟩ := @not_mem_spelledNames names
  refine tightDoc_of_spells (spells_nameList h) ?_ (by simpa using hl) (by simpa using hr)
  show Spot.start.run (spelledNames names ++ [.rbracket]) = _
  rw [Spot.run_append, hs]
  rfl

/-- The value of an assignment behind what it is assigned to. -/
theorem tight_assign {target value : Doc} {ls ms : List Lexeme}
    (htarget : TightDoc .start target ls .operand) (hvalue : TightDoc .start value ms .operand) :
    TightDoc .start (.concat [target, .text " = ", value]) (ls ++ (.assign .plain :: ms)) .operand := by
  rintro indent t ⟨u, _, rfl, hu, g, _, rfl, hg, v, _, rfl, hv, rfl⟩
  have hrow := (htarget indent u hu).between gap_assign hg rfl (by simp) (by simp) (hvalue indent v hv)
  rw [List.append_nil]
  exact hrow

/-- Every simple statement without misplaced nodes, whose literals are finite and have no sign, is
written so that its brackets count. -/
theorem statement_tight {s : Stmt} (hn : s.Named) (hblock : ∀ ss, s ≠ .block ss)
    (hv : ∀ v ∈ s.numbers, Decimal.isFinite v = true ∧ Decimal.signBit v = false) :
    ∃ doc, statement s = .ok doc ∧ TightItem doc (spelledStatement s) := by
  cases s with
  | assign name value =>
    obtain ⟨r, hr, hc⟩ := expr_tight hn.2 hv
    rw [statement, hr]
    refine ⟨_, rfl, .operand, ?_⟩
    simp only [within_zero]
    exact tight_assign (tightDoc_of_spells (spells_name hn.1) rfl (by simp) (by simp)) hc.tight
  | unpack names value =>
    obtain ⟨r, hr, hc⟩ := expr_tight hn.2.2 hv
    rw [statement, hr]
    refine ⟨_, rfl, .operand, ?_⟩
    simp only [within_zero, spelledStatement]
    simpa using tight_assign (tight_nameList hn.2.1) hc.tight
  | assignEach names values =>
    obtain ⟨-, hnames, -, hvalues⟩ := hn
    rw [Stmt.numbers, numbersAll_eq] at hv
    obtain ⟨docs, hdocs, htight⟩ := exprs_tight fun e he =>
      expr_tight (namedAll_iff.mp hvalues e he)
        fun v hmem => hv v (List.mem_flatMap.mpr ⟨e, he, hmem⟩)
    rw [statement, hdocs]
    refine ⟨_, rfl, .operand, ?_⟩
    rw [spelledStatement, spelledAll_eq]
    simpa using tight_assign (tight_nameList hnames) (tight_list htight)
  | block ss => exact absurd rfl (hblock ss)
  | result value =>
    obtain ⟨r, hr, hc⟩ := expr_tight hn hv
    -- a step alone is written in brackets, since without them it is read as an assignment
    cases value with
    | step name op =>
      rw [statement, hr]
      refine ⟨_, rfl, .operand, ?_⟩
      simp only [within_zero]
      have htight := tight_brackets hc.tight
      rw [spelled] at htight
      exact htight
    | _ =>
      rw [statement, hr]
      · refine ⟨_, rfl, .operand, ?_⟩
        simp only [within_zero]
        exact hc.tight
      · simp
  | empty =>
    refine ⟨_, rfl, .start, ?_⟩
    rintro indent t rfl
    exact tight_nil
  | misplaced display => exact hn.elim

theorem statements_tight {ss : List Stmt} (hn : ∀ s ∈ ss, s.Named)
    (hblock : ∀ s ∈ ss, ∀ ss', s ≠ .block ss')
    (hv : ∀ v ∈ ss.flatMap Stmt.numbers, Decimal.isFinite v = true ∧ Decimal.signBit v = false) :
    ∃ docs, ss.mapM statement = .ok docs ∧
      List.Forall₂ TightItem docs (ss.map spelledStatement) := by
  induction ss with
  | nil => exact ⟨[], rfl, .nil⟩
  | cons s ss ih =>
    rw [List.flatMap_cons] at hv
    obtain ⟨doc, hdoc, htight⟩ := statement_tight (hn s (List.mem_cons_self ..))
      (hblock s (List.mem_cons_self ..)) fun v hmem => hv v (List.mem_append_left _ hmem)
    obtain ⟨docs, hdocs, hrest⟩ := ih (fun x hx => hn x (List.mem_cons_of_mem _ hx))
      (fun x hx => hblock x (List.mem_cons_of_mem _ hx))
      fun v hmem => hv v (List.mem_append_right _ hmem)
    refine ⟨doc :: docs, ?_, .cons htight hrest⟩
    rw [List.mapM_cons, hdoc, hdocs]
    rfl

/-- Every program without misplaced nodes, whose literals are finite and have no sign, is written so
that its brackets count. -/
theorem document_tight {s : Stmt} (hn : s.Named)
    (hv : ∀ v ∈ s.numbers, Decimal.isFinite v = true ∧ Decimal.signBit v = false) :
    ∃ doc, document s = .ok doc ∧ TightItem doc (spelledProgram s.flatten) := by
  rw [← numbers_flatten] at hv
  obtain ⟨docs, hdocs, htight⟩ := statements_tight (fun t ht => named_of_mem_flatten hn ht)
    (fun t ht => ne_block_of_mem_flatten ht) hv
  rw [document, hdocs]
  refine ⟨_, rfl, ?_⟩
  show TightItem (Doc.joined comma _) _
  rw [spelledProgram]
  cases endsEmpty s.flatten with
  | true =>
    have hlast : TightItem (.text "") [] := ⟨.start, by rintro indent t rfl; exact tight_nil⟩
    exact tight_joined (List.rel_append htight (.cons hlast .nil))
  | false => simpa using tight_joined htight

end Canonical

/-! ### Reading without a pair of brackets -/

open Canonical Layout Loops

/-- Without a pair of brackets, a text stays without loops and qualifiers. -/
theorem Unbracketed.inert {t t' : List Char} (h : Unbracketed t t') (ht : Inert t) : Inert t' := by
  obtain ⟨u, mid, v, rfl, rfl, -⟩ := h
  have hrest : Inert (mid ++ ')' :: v) := ht.of_append_cons (by decide)
  exact ht.of_append_left.append (hrest.of_append_left.append (hrest.of_append_cons (by decide)))

/-- The literals of a program that was read have no sign, and are finite if none is infinite. -/
theorem literals_of_parse {policy : Option Policy} {source : List Char} {p : Program}
    (hp : (parse policy source).outcome = .ok p) (hfinite : Decimal.infinity ∉ numbersOfStatements p) :
    ∀ v ∈ (Stmt.block p).numbers, Decimal.isFinite v = true ∧ Decimal.signBit v = false := by
  intro v hv
  have hu : Decimal.IsUnsigned v := by
    rw [Stmt.numbers, numbersOfStatements_eq] at hv
    obtain ⟨s, hs, hv⟩ := List.mem_flatMap.mp hv
    exact (read_of_parse hp s hs).unsigned v hv
  refine ⟨?_, hu.signBit⟩
  rcases hu with rfl | ⟨hf, -⟩
  · exact absurd hv hfinite
  · exact hf

/-- A program that was read is written in any positive width, unless one of its literals is infinite,
and its text is read as the program. Without a pair of brackets around an expression, the text is not
read as the program: it is rejected, or it is read as another one. -/
theorem unparse_brackets_needed {policy : Option Policy} {source : List Char} {p : Program}
    (hp : (parse policy source).outcome = .ok p) (hfinite : Decimal.infinity ∉ numbersOfStatements p)
    {width : Int} (hwidth : 0 < width) :
    ∃ text, unparse width (.block p) = .ok text ∧ (parse none text).outcome = .ok p ∧
      ∀ text', Unbracketed text text' → ∀ policy', (parse policy' text').outcome ≠ .ok p := by
  have hn := named_of_parse hp
  have hv := literals_of_parse hp hfinite
  have hf := fun v hmem => (hv v hmem).1
  obtain ⟨text, htext, hread, -⟩ := unparse_parse hn hf hwidth
  rw [normalForm_of_read (read_of_parse hp)] at hread
  refine ⟨text, htext, hread, fun text' hpair policy' hparse => ?_⟩
  obtain ⟨doc, hdoc, s', htight⟩ := document_tight hn hv
  obtain ⟨doc', hdoc', hspells⟩ := document_writes hn hf
  obtain rfl := Except.ok.inj (hdoc.symm.trans hdoc')
  rw [flatten_of_read (read_of_parse hp)] at htight
  obtain ⟨t, ht, hrender⟩ := render_eq hwidth doc
  obtain rfl : trimLines t = text := by
    rw [unparse, hdoc] at htext
    simp only [bind, Except.bind, hrender, mapError_ok] at htext
    exact Except.ok.inj htext
  -- the lexemes without the pair weigh one less than those of the program
  obtain ⟨t', hpair', htrim⟩ := hpair.of_trimLines
  obtain ⟨ls, hls, hrun, hweight⟩ := (htight 0 t ht).loosened t' hpair'
  have hinert : Inert text' := hpair.inert (hspells 0 t ht).2.trimLines
  obtain ⟨text'', ls', hexpand, hls', hderives⟩ := expands_of_parse hparse
  rw [expand_inert hinert] at hexpand
  obtain rfl := Except.ok.inj hexpand
  rw [← lexemes_trimLines, ← htrim, lexemes_trimLines, hls] at hls'
  obtain rfl := Option.some.inj hls'
  have hunsigned : ∀ l ∈ ls, l.Unsigned := by
    intro l hl
    cases l with
    | number v => exact ((lexemesRead_of_lexemes hls).unsigned v hl).signBit
    | _ => trivial
  have hle := (derivesProgram_iff.mp hderives).weight_le hunsigned hrun
  omega

/-- A program with a bracketed operand, a bracketed sign and a bracketed step. -/
def nestedDifference : Program :=
  [.result (.binary .sub (.variable "b")
      (.binary .sub (.variable "b") (.negate (.negate (.variable "b"))))),
    .result (.step "b" .increment)]

theorem nestedDifference_named : (Stmt.block nestedDifference).Named :=
  ⟨⟨isName_b, isName_b, isName_b⟩, isName_b, trivial⟩

/-- None of the three pairs of brackets that it is written with can be left out. -/
theorem nestedDifference_brackets_needed :
    unparse 40 (.block nestedDifference) = .ok "b - (b - -(-b)), (b++)".toList ∧
    ∀ text' ∈ ["b - b - -(-b), (b++)", "b - (b - --b), (b++)", "b - (b - -(-b)), b++"],
      (parse none text'.toList).outcome ≠ .ok nestedDifference := by
  have hwritten : unparse 40 (.block nestedDifference) = .ok "b - (b - -(-b)), (b++)".toList := by
    cbv
  have hnumbers : numbersOfStatements nestedDifference = [] := by
    simp [nestedDifference, numbersOfStatements, Stmt.numbers, Expr.numbers]
  have hparse : (parse none "b - (b - -(-b)), (b++)".toList).outcome = .ok nestedDifference := by
    obtain ⟨text, htext, hparse, -⟩ := unparse_parse nestedDifference_named
      (by simp [Stmt.numbers, hnumbers]) (show (0 : Int) < 40 by decide)
    obtain rfl := Except.ok.inj (hwritten.symm.trans htext)
    exact hparse
  obtain ⟨text, htext, -, hneeded⟩ := unparse_brackets_needed hparse (by simp [hnumbers])
    (show (0 : Int) < 40 by decide)
  obtain rfl := Except.ok.inj (hwritten.symm.trans htext)
  have hsign : Paired "-b".toList := paired_of_not_mem (by decide) (by decide)
  have hoperand : Paired "b - -(-b)".toList :=
    .append (u := "b - -".toList) (paired_of_not_mem (by decide) (by decide)) hsign.brackets
  refine ⟨hwritten, fun text' hmem => hneeded _ ?_ none⟩
  simp only [List.mem_cons, List.not_mem_nil, or_false] at hmem
  -- in front of the brackets, between them, and behind them
  rcases hmem with rfl | rfl | rfl
  · exact ⟨"b - ".toList, "b - -(-b)".toList, ", (b++)".toList, by decide, by decide, hoperand,
      by simp⟩
  · exact ⟨"b - (b - -".toList, "-b".toList, "), (b++)".toList, by decide, by decide, hsign,
      by simp⟩
  · exact ⟨"b - (b - -(-b)), ".toList, "b++".toList, [], by decide, by decide,
      paired_of_not_mem (by decide) (by decide), by simp⟩

end FieldLang
