/-
How programs are spelled, and how their spelling is read back.

* `Stmt.normalForm` : the simple statements of a program, with normal expressions;
* `Stmt.Named` : nothing is out of place, every array assignment has names, and as many values as
  names if it has a list of values;
* `Canonical.spelledProgram` : the lexemes that a program is written as;
* `derives_spelledProgram` : they are read as the normal form.

Design notes: a statement is told apart by its second lexeme. An expression that begins with a
step of a variable is read as such if it goes on behind the step.
-/
import FieldLang.Proofs.Syntax.Sentence
import FieldLang.Proofs.Writing.Spelling

namespace FieldLang

/-- A simple statement with normal expressions. -/
def Stmt.normal : Stmt → Stmt
  | .assign name value => .assign name value.normal
  | .unpack names value => .unpack names value.normal
  | .assignEach names values => .assignEach names (normalAll values)
  | .result value => .result value.normal
  | s => s

/-- The simple statements of a statement, with normal expressions. -/
def Stmt.normalForm (s : Stmt) : Program := s.flatten.map Stmt.normal

mutual

/-- Nothing in the statement is out of place, its names are names, every array assignment has at
least one, and as many as there are values if there is a list of values. -/
def Stmt.Named : Stmt → Prop
  | .assign name value => IsName name ∧ value.Named
  | .unpack names value => names ≠ [] ∧ (∀ name ∈ names, IsName name) ∧ value.Named
  | .assignEach names values =>
    names ≠ [] ∧ (∀ name ∈ names, IsName name) ∧ values.length = names.length ∧ NamedAll values
  | .block statements => statementsNamed statements
  | .result value => value.Named
  | .empty => True
  | .misplaced _ => False

/-- The same for statements in a row. -/
def statementsNamed : List Stmt → Prop
  | [] => True
  | s :: ss => s.Named ∧ statementsNamed ss

end

theorem statementsNamed_iff {ss : List Stmt} : statementsNamed ss ↔ ∀ s ∈ ss, s.Named := by
  induction ss with
  | nil => simp [statementsNamed]
  | cons s ss ih => simp [statementsNamed, ih]

theorem mem_flattenAll {ss : List Stmt} {t : Stmt} :
    t ∈ flattenAll ss ↔ ∃ s ∈ ss, t ∈ s.flatten := by
  induction ss with
  | nil => simp [flattenAll]
  | cons s ss ih => simp [flattenAll, ih]

/-- The simple statements of a statement are no blocks. -/
theorem ne_block_of_mem_flatten {s t : Stmt} (h : t ∈ s.flatten) (ss : List Stmt) :
    t ≠ .block ss := by
  induction s using Stmt.induction with
  | block statements ih =>
    rw [Stmt.flatten] at h
    obtain ⟨s, hs, ht⟩ := mem_flattenAll.mp h
    exact ih s hs ht
  | _ =>
    simp only [Stmt.flatten, List.mem_singleton] at h
    rw [h]
    exact Stmt.noConfusion

theorem named_of_mem_flatten {s t : Stmt} (hs : s.Named) (h : t ∈ s.flatten) : t.Named := by
  induction s using Stmt.induction with
  | block statements ih =>
    rw [Stmt.flatten] at h
    obtain ⟨s, hmem, ht⟩ := mem_flattenAll.mp h
    exact ih s hmem (statementsNamed_iff.mp hs s hmem) ht
  | _ =>
    simp only [Stmt.flatten, List.mem_singleton] at h
    rw [h]
    exact hs

namespace Canonical

/-- The lexemes of names with commas between them. -/
def spelledNames : List String → List Lexeme
  | [] => []
  | [name] => [.variable name]
  | name :: names => .variable name :: .comma :: spelledNames names

/-- The lexemes that a simple statement is written as. -/
def spelledStatement : Stmt → List Lexeme
  | .result (.step name op) => [.lparen, .variable name, .step op, .rparen]
  | .result value => spelled value
  | .assign name value => .variable name :: .assign .plain :: spelled value
  | .unpack names value =>
    .lbracket :: (spelledNames names ++ .rbracket :: .assign .plain :: spelled value)
  | .assignEach names values =>
    .lbracket :: (spelledNames names ++ .rbracket :: .assign .plain :: .lbracket ::
      (spelledAll values ++ [.rbracket]))
  | _ => []

/-- The lexemes that a program is written as. A last empty statement has a comma of its own. -/
def spelledProgram (ss : List Stmt) : List Lexeme :=
  commaSeparated (ss.map spelledStatement ++ if endsEmpty ss then [[]] else [])

/-! ### The second lexeme -/

/-- An expression with these lexemes is told apart from an assignment or a step by the second of
them, or by what stands behind a step. -/
inductive Leads : List Lexeme → Prop where
  | single (l) : Leads [l]
  | second {l l' rest} : (∀ op, l' ≠ .assign op) → (∀ op, l' ≠ .step op) → Leads (l :: l' :: rest)
  | third {name op l rest} : l ≠ .comma → l ≠ .semicolon →
      Leads (.variable name :: .step op :: l :: rest)

/-- They still are with more behind them. -/
theorem Leads.append {ls : List Lexeme} {l : Lexeme} {rest : List Lexeme} (h : Leads ls)
    (hassign : ∀ op, l ≠ .assign op) (hstep : ∀ op, l ≠ .step op) : Leads (ls ++ l :: rest) := by
  cases h with
  | single l' => exact .second hassign hstep
  | second h₁ h₂ => exact .second h₁ h₂
  | third h₁ h₂ => exact .third h₁ h₂

/-- A spelling in brackets, or one that leads, leads with an operator behind it. -/
theorem leads_bracketedIf {e : Expr} (hn : e.Named) (h : (∀ n op, e ≠ .step n op) → Leads (spelled e))
    {asked : Bool} {l : Lexeme} {rest : List Lexeme}
    (hassign : ∀ op, l ≠ .assign op) (hstep : ∀ op, l ≠ .step op) (hcomma : l ≠ .comma)
    (hsemicolon : l ≠ .semicolon) : Leads (bracketedIf asked (spelled e) ++ l :: rest) := by
  cases asked with
  | true =>
    obtain ⟨first, ls, hls, ho⟩ := spelled_opens hn
    rw [bracketedIf, if_pos rfl, hls]
    refine .second ?_ ?_
    · rintro op rfl
      cases ho
    · rintro op rfl
      cases ho
  | false =>
    rw [bracketedIf, if_neg (by decide)]
    by_cases he : ∃ n op, e = .step n op
    · obtain ⟨n, op, rfl⟩ := he
      rw [spelled]
      exact .third hcomma hsemicolon
    · exact (h fun n op heq => he ⟨n, op, heq⟩).append hassign hstep

/-- The spelling of an expression that is no step leads. -/
theorem leads_spelled {e : Expr} (h : e.Named) (he : ∀ n op, e ≠ .step n op) :
    Leads (spelled e) := by
  induction e using Expr.induction with
  | number value =>
    rw [spelled]
    split
    · exact .second (by simp) (by simp)
    · exact .single _
  | name name =>
    rw [spelled]
    exact .single _
  | binary op lhs rhs ihl _ =>
    rw [spelled]
    exact leads_bracketedIf h.1 (ihl h.1) (by simp) (by simp) (by simp) (by simp)
  -- behind the sign an operand opens, so no step stands there
  | negate operand _ =>
    obtain ⟨l, ls, hls, ho⟩ := bracketedIf_opens (startsWithMinus operand)
      (bracketedIf_opens (rank operand < signPower) (spelled_opens (e := operand) h))
    rw [spelled, hls]
    refine .second ?_ ?_
    · rintro op rfl
      cases ho
    · rintro op rfl
      cases ho
  | call f args _ =>
    rw [spelled]
    exact .second (by simp) (by simp)
  | conditional c t f ihc _ _ =>
    rw [spelled]
    exact leads_bracketedIf h.1 (ihc h.1) (by simp) (by simp) (by simp) (by simp)
  | step name op => exact absurd rfl (he name op)
  | misplaced display => exact h.elim

/-! ### Reading statements back -/

theorem ends_of_append {rest : List Lexeme} (h : Ends rest) (k : Nat) :
    Stops k rest ∧ NoStep rest := by
  rcases h with rfl | h | h
  · exact ⟨⟨by simp, by simp⟩, by simp [NoStep]⟩
  · exact ⟨⟨by simp [h], by simp [h]⟩, by simp [NoStep, h]⟩
  · exact ⟨⟨by simp [h], by simp [h]⟩, by simp [NoStep, h]⟩

/-- Before the end of a statement, a spelling is read back as a whole. -/
theorem whole_readBack {e : Expr} (h : e.Named) {rest : List Lexeme} (hends : Ends rest) :
    Derives (.expr 0) (spelled e ++ rest) [e.normal] rest :=
  (derives_spelled h).whole rest (Nat.zero_le _) (ends_of_append hends 0).1 (ends_of_append hends 0).2

theorem names_readBack {names : List String} {rest : List Lexeme} :
    DerivesNames (spelledNames names ++ .rbracket :: rest) names rest := by
  induction names with
  | nil => exact .none
  | cons name names ih =>
    cases names with
    | nil => exact .last
    | cons name' names => exact .more ih

/-- What goes on behind a step is read as it is behind an operand. -/
theorem operators_of_step {name : String} {op : StepOp} {ls rest : List Lexeme} {e : Expr}
    (h : Derives (.expr 0) (.variable name :: .step op :: ls) [e] rest) :
    Derives (.operators 0 (.step name op)) ls [e] rest := by
  cases h with
  | expr hfirst hwhole =>
    cases hfirst with
    | step => exact hwhole
    | name hstep => exact absurd rfl (hstep op)

/-- The spelling of an expression that leads is read as the expression. -/
theorem result_readBack {e : Expr} (h : e.Named) (he : ∀ n op, e ≠ .step n op)
    {rest : List Lexeme} (hends : Ends rest) :
    DerivesStatement (spelled e ++ rest) (.result e.normal) rest := by
  have hwhole := whole_readBack h hends
  have hbracket : (spelled e ++ rest).head? ≠ some .lbracket := spelled_head?_ne h rfl rest
  have hleads := leads_spelled h he
  -- only the lexemes in front matter from here on
  generalize spelled e = word at hwhole hbracket hleads
  cases hleads with
  | single l =>
    refine .result ⟨hbracket, ?_, ?_⟩ hwhole
    · rintro name op rest' ⟨⟩
      rcases hends with h | h | h <;> cases h
    · rintro name op rest' ⟨⟩
      rcases hends with h | h | h <;> cases h
  | second hassign hstep =>
    refine .result ⟨hbracket, ?_, ?_⟩ hwhole
    · rintro name op rest' ⟨⟩
      exact hassign op rfl
    · rintro name op rest' ⟨⟩
      exact hstep op rfl
  | third hcomma hsemicolon =>
    refine .stepped ?_ (operators_of_step hwhole)
    rintro (h | h | h)
    · cases h
    · cases h
      exact hcomma rfl
    · cases h
      exact hsemicolon rfl

/-- The spelling of a simple statement is read back, up to the end of the statement. -/
theorem derives_spelledStatement {s : Stmt} (h : s.Named) (hblock : ∀ ss, s ≠ .block ss)
    (hempty : s ≠ .empty) {rest : List Lexeme} (hends : Ends rest) :
    DerivesStatement (spelledStatement s ++ rest) s.normal rest := by
  cases s with
  | assign name value => exact .assign (whole_readBack h.2 hends)
  | unpack names value =>
    obtain ⟨hne, -, hvalue⟩ := h
    rw [spelledStatement, List.cons_append, List.append_assoc]
    exact .unpack names_readBack hne (spelled_head?_ne hvalue rfl rest)
      (whole_readBack hvalue hends)
  | assignEach names values =>
    obtain ⟨hne, -, hlength, hvalues⟩ := h
    rw [spelledStatement, List.cons_append, List.append_assoc]
    refine .assignEach names_readBack hne ?_ (by rw [normalAll_eq_map, List.length_map, hlength])
    cases values with
    | nil => exact absurd (List.eq_nil_of_length_eq_zero hlength.symm) hne
    | cons e es =>
      have hitems := items_readBack rest fun x hx =>
        ⟨namedAll_iff.mp hvalues x hx, derives_spelled (namedAll_iff.mp hvalues x hx)⟩
      simpa [spelledAll, normalAll] using hitems
  | block ss => exact absurd rfl (hblock ss)
  | result value =>
    cases value with
    -- a step is written in brackets, or it would be read as a statement of its own
    | step name op =>
      have hstop : Derives (.operators 0 (Expr.step name op).normal) rest [_] rest :=
        .stop (ends_of_append hends 0).1
      have hwhole := (derives_spelled h).brackets hstop
      rw [spelled] at hwhole
      exact .result ⟨by simp [spelledStatement], by simp [spelledStatement],
        by simp [spelledStatement]⟩ hwhole
    | _ => exact result_readBack h (by simp) hends
  | empty => exact absurd rfl hempty
  | misplaced display => exact h.elim

/-- A statement that is not empty is written with lexemes that do not end a statement. -/
theorem not_ends_spelledStatement {s : Stmt} (h : s.Named) (hblock : ∀ ss, s ≠ .block ss)
    (hempty : s ≠ .empty) (rest : List Lexeme) : ¬Ends (spelledStatement s ++ rest) := by
  have hopens : ∀ e : Expr, e.Named → ¬Ends (spelled e ++ rest) := by
    intro e he
    rintro (h | h | h)
    · obtain ⟨first, ls, hls, -⟩ := spelled_opens he
      rw [hls] at h
      cases h
    · exact spelled_head?_ne he rfl rest h
    · exact spelled_head?_ne he rfl rest h
  cases s with
  | assign name value => simp [spelledStatement, Ends]
  | unpack names value => simp [spelledStatement, Ends]
  | assignEach names values => simp [spelledStatement, Ends]
  | block ss => exact absurd rfl (hblock ss)
  | result value =>
    cases value with
    | step name op => simp [spelledStatement, Ends]
    | _ => exact hopens _ h
  | empty => exact absurd rfl hempty
  | misplaced display => exact h.elim

/-- The spelling of simple statements is read back as the statements. -/
theorem derives_spelledProgram {ss : List Stmt} (h : ∀ s ∈ ss, s.Named)
    (hblock : ∀ s ∈ ss, ∀ ss', s ≠ .block ss') :
    DerivesProgram (spelledProgram ss) (ss.map Stmt.normal) := by
  induction ss with
  | nil => exact .done
  | cons s ss ih =>
    have hs := h s (List.mem_cons_self ..)
    have hb := hblock s (List.mem_cons_self ..)
    cases ss with
    | nil =>
      -- a last empty statement is written as a comma, any other one without
      by_cases he : s = .empty
      · subst he
        exact .empty (.inl rfl) .done
      · have hlast : endsEmpty [s] = false := by
          cases s with
          | empty => exact absurd rfl he
          | _ => rfl
        have hd := derives_spelledStatement hs hb he (.inl rfl)
        rw [List.append_nil] at hd
        rw [spelledProgram, hlast]
        simp only [List.map_cons, List.map_nil, commaSeparated]
        refine .last ?_ (by simpa using hd)
        simpa using not_ends_spelledStatement hs hb he []
    | cons s' ss =>
      have hlast : endsEmpty (s :: s' :: ss) = endsEmpty (s' :: ss) := by
        rw [endsEmpty, List.getLast?_cons_cons, endsEmpty]
      have hsplit : spelledProgram (s :: s' :: ss)
          = spelledStatement s ++ .comma :: spelledProgram (s' :: ss) := by
        rw [spelledProgram, hlast, spelledProgram]
        rfl
      have hrest := ih (fun x hx => h x (List.mem_cons_of_mem _ hx))
        (fun x hx => hblock x (List.mem_cons_of_mem _ hx))
      rw [hsplit]
      by_cases he : s = .empty
      · subst he
        exact .empty (.inl rfl) hrest
      · have hends : Ends (.comma :: spelledProgram (s' :: ss)) := .inr (.inl rfl)
        exact .more (not_ends_spelledStatement hs hb he _)
          (derives_spelledStatement hs hb he hends) (.inl rfl) hrest

end Canonical

end FieldLang
