/-
Why programs are not written.

* `WriteError.IsExpected` : refusals that the program or the way it is to be written accounts for;
* `unparse_error` : a program whose nodes are in place is refused for a literal only;
* `HostWriter.expr_error`, `HostWriter.statement_error`, `HostWriter.finalStatement_error` : in the
  host language a line is refused for a step or an assignment of an angle parameter;
* `HostWriter.document_refused` : so is a function that may have its name and has a statement;
* `generate_error` : what a program is refused for, whatever its target.
-/
import FieldLang.Proofs.Host.Document
import FieldLang.Proofs.Writing.Formatting

namespace FieldLang

open Writing

/-- A refusal that the program, or the way it is to be written, accounts for: no node is out of
place, and the width is not at fault. -/
def WriteError.IsExpected : WriteError → Prop
  | .unknownTarget _ | .notIdentifier _ | .shadowsFunction _ | .noStatements | .readOnly _
  | .unspeakable _ => True
  | .notExpression _ | .notStatement _ | .missingValue | .badWidth _ => False

/-- In a positive width, only a literal without a spelling keeps a program from being written. -/
theorem unparse_error {s : Stmt} (hn : s.Named) {width : Int} (hwidth : 0 < width) {err : WriteError}
    (h : unparse width s = .error err) : ∃ v, err = .unspeakable v := by
  cases hv : Canonical.unspeakable? s.numbers with
  | none =>
    obtain ⟨text, htext, -⟩ := unparse_parse hn (Canonical.unspeakable?_eq_none.mp hv) hwidth
    cases htext.symm.trans h
  | some v =>
    rw [unparse_unspeakable hn hv] at h
    exact ⟨v, (Except.error.inj h).symm⟩

namespace HostWriter

variable {w : HostWriter} {err : WriteError}

/-! ### Lines -/

theorem target_error {name : String} (h : w.target name = .error err) : err = .readOnly name := by
  rw [target] at h
  split at h
  · exact (Except.error.inj h).symm
  · cases h

theorem targets_error {names : List String} (h : w.targets names = .error err) :
    ∃ name, err = .readOnly name := by
  obtain h | ⟨texts, -, h⟩ := bind_eq_error.mp h
  · obtain ⟨_, name, _, -, -, hname⟩ := mapM_eq_error.mp h
    exact ⟨name, target_error hname⟩
  · split at h <;> cases h

theorem exprs_error {es : List Expr} (h : w.exprs es = .error err) :
    ∃ e ∈ es, w.expr e = .error err := by
  induction es with
  | nil => cases h
  | cons e es ih =>
    rw [exprs] at h
    obtain h | ⟨_, -, h⟩ := bind_eq_error.mp h
    · exact ⟨e, List.mem_cons_self, h⟩
    · obtain h | ⟨_, -, h⟩ := bind_eq_error.mp h
      · obtain ⟨e', he', h⟩ := ih h
        exact ⟨e', List.mem_cons_of_mem e he', h⟩
      · cases h

/-- An expression is refused for a step of an angle parameter. -/
theorem expr_error {e : Expr} (hn : e.Named) (h : w.expr e = .error err) :
    ∃ name, err = .readOnly name := by
  -- only a step fails by itself, all other nodes where an operand does
  induction e using Expr.induction with
  | number value => cases h
  | name name => cases h
  | binary op lhs rhs ihL ihR =>
    rw [expr_binary] at h
    obtain h | ⟨_, -, h⟩ := bind_eq_error.mp h
    · exact ihL hn.1 h
    · obtain h | ⟨_, -, h⟩ := bind_eq_error.mp h
      · exact ihR hn.2 h
      · cases h
  | negate operand ih =>
    rw [expr] at h
    obtain h | ⟨_, -, h⟩ := bind_eq_error.mp h
    · exact ih hn h
    · cases h
  | call f args ih =>
    rw [expr] at h
    obtain h | ⟨_, -, h⟩ := bind_eq_error.mp h
    · obtain ⟨e, he, h⟩ := exprs_error h
      exact ih e he (namedAll_iff.mp hn e he) h
    · cases h
  | conditional c t f ihC ihT ihF =>
    rw [expr] at h
    obtain h | ⟨_, -, h⟩ := bind_eq_error.mp h
    · exact ihC hn.1 h
    · obtain h | ⟨_, -, h⟩ := bind_eq_error.mp h
      · exact ihT hn.2.1 h
      · obtain h | ⟨_, -, h⟩ := bind_eq_error.mp h
        · exact ihF hn.2.2 h
        · cases h
  | step name op =>
    rw [expr] at h
    obtain h | ⟨_, -, h⟩ := bind_eq_error.mp h
    · exact ⟨name, target_error h⟩
    · cases h
  | misplaced display => exact hn.elim

theorem assignEach_error {names : List String} {values : List Expr} (hne : names ≠ [])
    (hlength : values.length = names.length) (hvalues : ∀ e ∈ values, e.Named)
    (h : w.statement (.assignEach names values) = .error err) : ∃ name, err = .readOnly name := by
  cases names with
  | nil => exact absurd rfl hne
  | cons name names =>
    cases names with
    | nil =>
      obtain ⟨value, rfl⟩ := List.length_eq_one_iff.mp hlength
      obtain h | ⟨_, -, h⟩ := bind_eq_error.mp h
      · exact ⟨name, target_error h⟩
      · obtain h | ⟨_, -, h⟩ := bind_eq_error.mp h
        · exact expr_error (hvalues value (List.mem_singleton_self value)) h
        · cases h
    | cons name' names =>
      obtain h | ⟨_, -, h⟩ := bind_eq_error.mp h
      · obtain ⟨e, he, h⟩ := exprs_error h
        exact expr_error (hvalues e he) h
      · obtain h | ⟨_, -, h⟩ := bind_eq_error.mp h
        · exact targets_error h
        · cases h

/-- A simple statement is refused for a step or an assignment of an angle parameter. -/
theorem statement_error {s : Stmt} (hn : s.Named) (hblock : ∀ ss, s ≠ .block ss) (hempty : s ≠ .empty)
    (h : w.statement s = .error err) : ∃ name, err = .readOnly name := by
  cases s with
  | assign name value =>
    rw [statement] at h
    obtain h | ⟨_, -, h⟩ := bind_eq_error.mp h
    · exact ⟨name, target_error h⟩
    · obtain h | ⟨_, -, h⟩ := bind_eq_error.mp h
      · exact expr_error hn.2 h
      · cases h
  | unpack names value =>
    rw [statement] at h
    obtain h | ⟨_, -, h⟩ := bind_eq_error.mp h
    · exact targets_error h
    · obtain h | ⟨_, -, h⟩ := bind_eq_error.mp h
      · exact expr_error hn.2.2 h
      · cases h
  | assignEach names values =>
    obtain ⟨hne, -, hlength, hvalues⟩ := hn
    exact assignEach_error hne hlength (namedAll_iff.mp hvalues) h
  | result value =>
    -- a step on a line of its own is written in another way
    by_cases hstep : ∃ name op, value = .step name op
    · obtain ⟨name, op, rfl⟩ := hstep
      obtain h | ⟨_, -, h⟩ := bind_eq_error.mp h
      · exact ⟨name, target_error h⟩
      · cases h
    · rw [statement_result fun name op he => hstep ⟨name, op, he⟩] at h
      obtain h | ⟨_, -, h⟩ := bind_eq_error.mp h
      · exact expr_error hn h
      · cases h
  | block ss => exact absurd rfl (hblock ss)
  | empty => exact absurd rfl hempty
  | misplaced display => exact hn.elim

/-- So is the last one, with the line that returns its value. -/
theorem finalStatement_error {s : Stmt} (hn : s.Named) (hblock : ∀ ss, s ≠ .block ss)
    (hempty : s ≠ .empty) (h : w.finalStatement s = .error err) : ∃ name, err = .readOnly name := by
  cases s with
  | result value =>
    obtain h | ⟨_, -, h⟩ := bind_eq_error.mp h
    · exact expr_error hn h
    · cases h
  | assign name value =>
    obtain h | ⟨_, -, h⟩ := bind_eq_error.mp h
    · exact statement_error hn hblock hempty h
    · cases h
  -- the names are written twice, in the line and in the value that is returned
  | unpack names value =>
    obtain h | ⟨_, -, h⟩ := bind_eq_error.mp h
    · exact statement_error hn hblock hempty h
    · obtain h | ⟨_, -, h⟩ := bind_eq_error.mp h
      · exact targets_error h
      · cases h
  | assignEach names values =>
    obtain h | ⟨_, -, h⟩ := bind_eq_error.mp h
    · exact statement_error hn hblock hempty h
    · split at h
      · next hlast => exact absurd (List.getLast?_eq_none_iff.mp hlast) hn.1
      · cases h
  | block ss => exact absurd rfl (hblock ss)
  | empty => exact absurd rfl hempty
  | misplaced display => exact hn.elim

/-! ### Functions -/

theorem checkName_error (h : w.checkName = .error err) : err.IsExpected := by
  rw [checkName] at h
  split at h
  · cases h
    trivial
  · split at h
    · cases h
      trivial
    · cases h

/-- A function that may have its name is refused for want of a statement, or for what the program
does to an angle parameter. -/
theorem document_refused {s : Stmt} (hn : s.Named) (hname : w.checkName = .ok ())
    (h : w.document s = .error err) : err = .noStatements ∨ ∃ name, err = .readOnly name := by
  have hsimple : ∀ t ∈ simpleStatements s, t.Named ∧ (∀ ss, t ≠ .block ss) ∧ t ≠ .empty := by
    intro t ht
    obtain ⟨hmem, hkept⟩ := List.mem_filter.mp ht
    refine ⟨named_of_mem_flatten hn hmem, ne_block_of_mem_flatten hmem, ?_⟩
    rintro rfl
    cases hkept
  obtain h | ⟨⟨⟩, -, h⟩ := bind_eq_error.mp h
  · cases hname.symm.trans h
  -- the last statement is written apart from the others, with the value that is returned
  dsimp only at h
  split at h
  · exact .inl (Except.error.inj h).symm
  · next last hlast =>
    have hmem : last ∈ simpleStatements s := List.mem_of_getLast? hlast
    obtain h | ⟨lines, -, h⟩ := bind_eq_error.mp h
    · obtain ⟨before, t, after, ht, -, h⟩ := mapM_eq_error.mp h
      have htmem : t ∈ simpleStatements s := by
        refine (List.dropLast_sublist _).subset (ht ▸ ?_)
        simp
      obtain ⟨htn, hblock, hempty⟩ := hsimple t htmem
      exact .inr (statement_error htn hblock hempty h)
    · obtain h | ⟨final, -, h⟩ := bind_eq_error.mp h
      · obtain ⟨hlastn, hblock, hempty⟩ := hsimple last hmem
        exact .inr (finalStatement_error hlastn hblock hempty h)
      · cases h

theorem document_error {s : Stmt} (hn : s.Named) (h : w.document s = .error err) :
    err.IsExpected := by
  cases hname : w.checkName with
  | error e =>
    obtain h | ⟨⟨⟩, hok, -⟩ := bind_eq_error.mp h
    · exact checkName_error h
    · cases hname.symm.trans hok
  | ok _ =>
    obtain rfl | ⟨name, rfl⟩ := document_refused hn hname h
    · trivial
    · trivial

end HostWriter

/-- In a positive width, a program is refused for its target, for its name or for want of a statement,
or for what it does to an angle parameter, or for a literal. -/
theorem generate_error {options : Options} {s : Stmt} (hn : s.Named) (hwidth : 0 < options.width)
    {err : WriteError} (h : generate options s = .error err) : err.IsExpected := by
  obtain h | ⟨target, -, h⟩ := bind_eq_error.mp h
  · rw [Target.ofName] at h
    split at h
    · cases h
    · split at h
      · cases h
      · cases h
        trivial
  · cases target with
    | dsl =>
      obtain ⟨v, rfl⟩ := unparse_error hn hwidth h
      trivial
    | python =>
      obtain h | ⟨doc, -, h⟩ := bind_eq_error.mp h
      · exact HostWriter.document_error hn h
      · obtain h | ⟨text, -, h⟩ := bind_eq_error.mp h
        · obtain ⟨t, -, hrender⟩ := Layout.render_eq hwidth doc
          rw [hrender] at h
          cases h
        · cases h

end FieldLang
