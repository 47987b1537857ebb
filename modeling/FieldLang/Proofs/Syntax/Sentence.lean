/-
The grammar of statements and programs.

* `DerivesNames`, `DerivesStatement`, `DerivesProgram` : the rules, over rows of lexemes;
* `program_ok_iff` : the reader of programs reads exactly what the rules derive.
-/
import FieldLang.Proofs.Syntax.Grammar

namespace FieldLang

/-- The names that are read from the front of some lexemes up to a square bracket. -/
inductive DerivesNames : List Lexeme → List String → List Lexeme → Prop where
  | none {ls} : DerivesNames (.rbracket :: ls) [] ls
  | more {name ls names rest} : DerivesNames ls names rest →
      DerivesNames (.variable name :: .comma :: ls) (name :: names) rest
  | last {name ls} : DerivesNames (.variable name :: .rbracket :: ls) [name] ls

/-- A statement may end before these lexemes. -/
def Ends (ls : List Lexeme) : Prop :=
  ls = [] ∨ ls.head? = some .comma ∨ ls.head? = some .semicolon

/-- The lexemes begin neither with a bracket nor with a variable that is assigned or stepped. -/
structure Plain (ls : List Lexeme) : Prop where
  bracket : ls.head? ≠ some .lbracket
  assign : ∀ name op rest, ls ≠ .variable name :: .assign op :: rest
  step : ∀ name op rest, ls ≠ .variable name :: .step op :: rest

/-- What a variable is bound to when it is assigned through an operator. -/
def updated (op : AssignOp) (name : String) (value : Expr) : Expr :=
  match op with
  | .plain => value
  | .add => .binary .add (.variable name) value
  | .sub => .binary .sub (.variable name) value
  | .mul => .binary .mul (.variable name) value
  | .div => .binary .div (.variable name) value

/-- What a variable is bound to when it is stepped. -/
def advanced (op : StepOp) (name : String) : Expr :=
  match op with
  | .increment => .binary .add (.variable name) (.number 1)
  | .decrement => .binary .sub (.variable name) (.number 1)

theorem updated_eq (op : AssignOp) (name : String) (value : Expr) :
    updated op name value =
      match op.operator? with
      | none => value
      | some op => .binary op (.variable name) value := by
  cases op <;> rfl

theorem advanced_eq (op : StepOp) (name : String) :
    advanced op name = .binary op.toBinOp (.variable name) (.number 1) := by
  cases op <;> rfl

/-- The statement that is read from the front of some lexemes, and the lexemes behind it. -/
inductive DerivesStatement : List Lexeme → Stmt → List Lexeme → Prop where
  | assignEach {ls names mid values rest} :
      DerivesNames ls names (.assign .plain :: .lbracket :: mid) → names ≠ [] →
      Derives .items mid values rest → values.length = names.length →
      DerivesStatement (.lbracket :: ls) (.assignEach names values) rest
  | unpack {ls names mid value rest} :
      DerivesNames ls names (.assign .plain :: mid) → names ≠ [] →
      mid.head? ≠ some .lbracket → Derives (.expr 0) mid [value] rest →
      DerivesStatement (.lbracket :: ls) (.unpack names value) rest
  | assign {name op ls value rest} : Derives (.expr 0) ls [value] rest →
      DerivesStatement (.variable name :: .assign op :: ls) (.assign name (updated op name value))
        rest
  | step {name op ls} : Ends ls →
      DerivesStatement (.variable name :: .step op :: ls) (.assign name (advanced op name)) ls
  | stepped {name op ls e rest} : ¬Ends ls → Derives (.operators 0 (.step name op)) ls [e] rest →
      DerivesStatement (.variable name :: .step op :: ls) (.result e) rest
  | result {ls e rest} : Plain ls → Derives (.expr 0) ls [e] rest →
      DerivesStatement ls (.result e) rest

/-- The program that some lexemes are read as. -/
inductive DerivesProgram : List Lexeme → Program → Prop where
  | done : DerivesProgram [] []
  | empty {l ls p} : l = .comma ∨ l = .semicolon → DerivesProgram ls p →
      DerivesProgram (l :: ls) (.empty :: p)
  | last {ls s} : ¬Ends ls → DerivesStatement ls s [] → DerivesProgram ls [s]
  | more {ls s l rest p} : ¬Ends ls → DerivesStatement ls s (l :: rest) →
      l = .comma ∨ l = .semicolon → DerivesProgram rest p → DerivesProgram ls (s :: p)

variable {stop : Nat}

-- Naming the readers here generates their equations once, ahead of the proofs that use them.
attribute [local simp] names program

theorem endsStatement_iff {ts : List Token} : endsStatement ts = true ↔ Ends (lexemesOf ts) := by
  rw [Ends, head?_lexemesOf, head?_lexemesOf, List.map_eq_nil_iff]
  constructor
  · intro h
    rw [endsStatement.eq_def] at h
    split at h
    · exact .inl rfl
    · exact .inr (.inl ⟨_, _, rfl⟩)
    · exact .inr (.inr ⟨_, _, rfl⟩)
    · cases h
  · rintro (rfl | ⟨pos, rest, rfl⟩ | ⟨pos, rest, rfl⟩) <;> rfl

/-! ### The readers read what the rules derive -/

/-- What the reader of a row of tokens yields, whatever the proof about its length. -/
def Yields {α : Type} {ts : List Token} (r : Except ParseError (Taken α ts)) (value : α)
    (rest : List Lexeme) : Prop :=
  ∃ t, r = .ok t ∧ t.value = value ∧ lexemesOf t.rest = rest

/-- An expression that the rules derive is read. -/
theorem expr_accepts (stop : Nat) {least : Nat} {ts : List Token} {e : Expr} {rest : List Lexeme}
    (h : Derives (.expr least) (lexemesOf ts) [e] rest) :
    Yields (expr stop least ts) e rest := by
  obtain ⟨after, hafter, hr⟩ := h.accepts stop ts rfl
  obtain ⟨hlt, hr⟩ := accepts_expr.mp hr
  exact ⟨_, hr, rfl, hafter⟩

/-- Items that the rules derive are read. -/
theorem items_accepts (stop opened : Nat) {ts : List Token} {es : List Expr} {rest : List Lexeme}
    (h : Derives .items (lexemesOf ts) es rest) :
    Yields (items stop opened ts) es rest := by
  obtain ⟨after, hafter, hr⟩ := h.accepts stop ts rfl
  obtain ⟨hlt, hr⟩ := hr opened
  exact ⟨_, hr, rfl, hafter⟩

theorem DerivesNames.accepts {ls rest : List Lexeme} {ns : List String}
    (h : DerivesNames ls ns rest) (stop opened : Nat) : ∀ ts, lexemesOf ts = ls →
      Yields (names stop opened ts) ns rest := by
  induction h with
  | none =>
    intro ts hts
    obtain ⟨pos, after, rfl, hafter⟩ := lexemesOf_eq_cons.mp hts
    exact ⟨_, by rw [names], rfl, hafter⟩
  | more _ ih =>
    intro ts hts
    obtain ⟨pos, after, rfl, hafter⟩ := lexemesOf_eq_cons.mp hts
    obtain ⟨pos', after', rfl, hafter'⟩ := lexemesOf_eq_cons.mp hafter
    obtain ⟨t, ht, hvalue, hrest⟩ := ih after' hafter'
    refine ⟨_, by rw [names, ht]; rfl, ?_, hrest⟩
    rw [hvalue]
  | last =>
    intro ts hts
    obtain ⟨pos, after, rfl, hafter⟩ := lexemesOf_eq_cons.mp hts
    obtain ⟨pos', after', rfl, hafter'⟩ := lexemesOf_eq_cons.mp hafter
    exact ⟨_, by rw [names], rfl, hafter'⟩

theorem arrayValue_items {targets : List String} {pos pos' : Nat} {ts : List Token}
    {values : List Expr} {rest : List Lexeme} (h : Yields (items stop pos' ts) values rest)
    (hlength : values.length = targets.length) :
    Yields (arrayValue stop targets (⟨.assign .plain, pos⟩ :: ⟨.lbracket, pos'⟩ :: ts))
      (.assignEach targets values) rest := by
  obtain ⟨t, ht, rfl, hrest⟩ := h
  rw [arrayValue, ht]
  simp only [bind, Except.bind]
  rw [if_pos hlength]
  exact ⟨_, rfl, rfl, hrest⟩

theorem arrayValue_expr {targets : List String} {pos : Nat} {ts : List Token}
    {value : Expr} {rest : List Lexeme} (h : Yields (expr stop 0 ts) value rest)
    (hfront : (lexemesOf ts).head? ≠ some .lbracket) :
    Yields (arrayValue stop targets (⟨.assign .plain, pos⟩ :: ts)) (.unpack targets value) rest := by
  obtain ⟨t, ht, rfl, hrest⟩ := h
  rw [arrayValue, ht]
  · exact ⟨_, rfl, rfl, hrest⟩
  · exact head?_lexemesOf_ne.mp hfront

theorem statement_array {targets : List String} {pos : Nat} {ts mid : List Token} {s : Stmt}
    {rest : List Lexeme} {hlt : mid.length < ts.length}
    (h : names stop pos ts = .ok ⟨targets, mid, hlt⟩) (hne : targets ≠ [])
    (hs : Yields (arrayValue stop targets mid) s rest) :
    Yields (statement stop (⟨.lbracket, pos⟩ :: ts)) s rest := by
  obtain ⟨t, ht, rfl, hrest⟩ := hs
  rw [statement, h]
  simp only [bind, Except.bind]
  rw [if_neg hne, ht]
  exact ⟨_, rfl, rfl, hrest⟩

theorem DerivesStatement.accepts {ls rest : List Lexeme} {s : Stmt}
    (h : DerivesStatement ls s rest) (stop : Nat) : ∀ ts, lexemesOf ts = ls →
      Yields (statement stop ts) s rest := by
  intro ts hts
  -- the lexemes in front fix the branch of the reader, and the parts are read as expressions are
  cases h with
  | assignEach hnames hne hitems hlength =>
    obtain ⟨pos, after, rfl, rfl⟩ := lexemesOf_eq_cons.mp hts
    obtain ⟨⟨targets, mid, hlt⟩, htargets, rfl, hmid⟩ := hnames.accepts stop pos after rfl
    obtain ⟨pos₁, mid', rfl, hmid'⟩ := lexemesOf_eq_cons.mp hmid
    obtain ⟨pos₂, mid'', rfl, rfl⟩ := lexemesOf_eq_cons.mp hmid'
    exact statement_array htargets hne (arrayValue_items (items_accepts stop _ hitems) hlength)
  | unpack hnames hne hfront hvalue =>
    obtain ⟨pos, after, rfl, rfl⟩ := lexemesOf_eq_cons.mp hts
    obtain ⟨⟨targets, mid, hlt⟩, htargets, rfl, hmid⟩ := hnames.accepts stop pos after rfl
    obtain ⟨pos₁, mid', rfl, rfl⟩ := lexemesOf_eq_cons.mp hmid
    exact statement_array htargets hne (arrayValue_expr (expr_accepts stop hvalue) hfront)
  | assign hvalue =>
    obtain ⟨pos, after, rfl, hafter⟩ := lexemesOf_eq_cons.mp hts
    obtain ⟨pos', after', rfl, rfl⟩ := lexemesOf_eq_cons.mp hafter
    obtain ⟨t, ht, rfl, hrest⟩ := expr_accepts stop hvalue
    rw [statement, ht]
    exact ⟨_, rfl, congrArg _ (updated_eq _ _ _).symm, hrest⟩
  | step hends =>
    obtain ⟨pos, after, rfl, hafter⟩ := lexemesOf_eq_cons.mp hts
    obtain ⟨pos', after', rfl, rfl⟩ := lexemesOf_eq_cons.mp hafter
    rw [statement, if_pos (endsStatement_iff.mpr hends)]
    exact ⟨_, rfl, congrArg _ (advanced_eq _ _).symm, rfl⟩
  | stepped hends hvalue =>
    obtain ⟨pos, after, rfl, hafter⟩ := lexemesOf_eq_cons.mp hts
    obtain ⟨pos', after', rfl, rfl⟩ := lexemesOf_eq_cons.mp hafter
    obtain ⟨mid, hmid, hr⟩ := hvalue.accepts stop after' rfl
    obtain ⟨hlt, hr⟩ := accepts_operators.mp hr
    rw [statement, if_neg (fun h => hends (endsStatement_iff.mp h)), hr]
    exact ⟨_, rfl, rfl, hmid⟩
  | result hplain hvalue =>
    subst hts
    obtain ⟨t, ht, rfl, hrest⟩ := expr_accepts stop hvalue
    rw [statement, ht]
    · exact ⟨_, rfl, rfl, hrest⟩
    · exact head?_lexemesOf_ne.mp hplain.bracket
    · rintro name pos op pos' after rfl
      exact hplain.assign name op _ rfl
    · rintro name pos op pos' after rfl
      exact hplain.step name op _ rfl

theorem program_last {ts : List Token} {s : Stmt} {hlt : 0 < ts.length}
    (hends : ¬Ends (lexemesOf ts)) (h : statement stop ts = .ok ⟨s, [], hlt⟩) :
    program stop ts = .ok [s] := by
  rw [program.eq_def]
  split
  · exact absurd (.inl rfl) hends
  · exact absurd (.inr (.inl rfl)) hends
  · exact absurd (.inr (.inr rfl)) hends
  · rw [h]
    rfl

theorem program_more {ts rest : List Token} {s : Stmt} {l : Lexeme} {pos : Nat} {p : Program}
    {hlt : (Token.mk l pos :: rest).length < ts.length} (hends : ¬Ends (lexemesOf ts))
    (h : statement stop ts = .ok ⟨s, ⟨l, pos⟩ :: rest, hlt⟩) (hl : l = .comma ∨ l = .semicolon)
    (hp : program stop rest = .ok p) : program stop ts = .ok (s :: p) := by
  rw [program.eq_def]
  split
  · exact absurd (.inl rfl) hends
  · exact absurd (.inr (.inl rfl)) hends
  · exact absurd (.inr (.inr rfl)) hends
  · rw [h]
    rcases hl with rfl | rfl
    · simp only [bind, Except.bind, hp]
      rfl
    · simp only [bind, Except.bind, hp]
      rfl

theorem DerivesProgram.accepts {ls : List Lexeme} {p : Program} (h : DerivesProgram ls p) :
    ∀ ts, lexemesOf ts = ls → program stop ts = .ok p := by
  induction h with
  | done =>
    intro ts hts
    rw [List.map_eq_nil_iff.mp hts, program]
  | empty hl _ ih =>
    intro ts hts
    obtain ⟨pos, after, rfl, hafter⟩ := lexemesOf_eq_cons.mp hts
    rcases hl with rfl | rfl
    · rw [program, ih after hafter]
      rfl
    · rw [program, ih after hafter]
      rfl
  | last hends hs =>
    rintro ts rfl
    obtain ⟨⟨s, mid, hlt⟩, ht, rfl, hrest⟩ := hs.accepts stop ts rfl
    cases List.map_eq_nil_iff.mp hrest
    exact program_last hends ht
  | more hends hs hl _ ih =>
    rintro ts rfl
    obtain ⟨⟨s, mid, hlt⟩, ht, rfl, hrest⟩ := hs.accepts stop ts rfl
    obtain ⟨pos, rest, rfl, hrest'⟩ := lexemesOf_eq_cons.mp hrest
    exact program_more hends ht hl (ih rest hrest')

/-! ### The readers read nothing else -/

theorem names_derives {opened : Nat} {ts : List Token} {t : Taken (List String) ts}
    (h : names stop opened ts = .ok t) :
    DerivesNames (lexemesOf ts) t.value (lexemesOf t.rest) := by
  induction hn : ts.length using Nat.strongRecOn generalizing ts with
  | ind n ih =>
    rw [names.eq_def] at h
    split at h
    · cases h
      exact .none
    · next name pos pos' rest =>
      obtain ⟨more, hmore, h⟩ := bind_eq_ok.mp h
      cases h
      exact .more (ih rest.length (by simp at hn; omega) hmore rfl)
    · cases h
      exact .last
    · cases h
    · cases h

theorem arrayValue_derives {targets : List String} {ls : List Lexeme} {ts : List Token}
    {t : Taken Stmt ts} (hnames : DerivesNames ls targets (lexemesOf ts)) (hne : targets ≠ [])
    (h : arrayValue stop targets ts = .ok t) :
    DerivesStatement (.lbracket :: ls) t.value (lexemesOf t.rest) := by
  rw [arrayValue.eq_def] at h
  split at h
  · obtain ⟨values, hvalues, h⟩ := bind_eq_ok.mp h
    split at h
    · next hlength =>
      cases h
      exact .assignEach hnames hne ((grounded _).items hvalues) hlength
    · cases h
  · next hfront =>
    obtain ⟨value, hvalue, h⟩ := bind_eq_ok.mp h
    cases h
    exact .unpack hnames hne (head?_lexemesOf_ne.mpr hfront) ((grounded _).expr hvalue)
  · cases h

/-- None of the first branches of the reader of statements takes the tokens. -/
theorem plain_of_ne {ts : List Token} (hbracket : ∀ pos rest, ts ≠ ⟨.lbracket, pos⟩ :: rest)
    (hassign : ∀ name pos op pos' rest,
      ts ≠ ⟨.variable name, pos⟩ :: ⟨.assign op, pos'⟩ :: rest)
    (hstep : ∀ name pos op pos' rest, ts ≠ ⟨.variable name, pos⟩ :: ⟨.step op, pos'⟩ :: rest) :
    Plain (lexemesOf ts) := by
  refine ⟨head?_lexemesOf_ne.mpr hbracket, fun name op rest heq => ?_, fun name op rest heq => ?_⟩
  · obtain ⟨pos, after, rfl, hafter⟩ := lexemesOf_eq_cons.mp heq
    obtain ⟨pos', after', rfl, -⟩ := lexemesOf_eq_cons.mp hafter
    exact hassign name pos op pos' after' rfl
  · obtain ⟨pos, after, rfl, hafter⟩ := lexemesOf_eq_cons.mp heq
    obtain ⟨pos', after', rfl, -⟩ := lexemesOf_eq_cons.mp hafter
    exact hstep name pos op pos' after' rfl

theorem statement_derives {ts : List Token} {t : Taken Stmt ts} (h : statement stop ts = .ok t) :
    DerivesStatement (lexemesOf ts) t.value (lexemesOf t.rest) := by
  rw [statement.eq_def] at h
  -- one goal for each branch of the reader
  split at h
  · obtain ⟨targets, htargets, h⟩ := bind_eq_ok.mp h
    split at h
    · cases h
    · next hne =>
      obtain ⟨s, hs, h⟩ := bind_eq_ok.mp h
      have hd := arrayValue_derives (names_derives htargets) hne hs
      cases h
      exact hd
  · next op _ rest =>
    obtain ⟨value, hvalue, h⟩ := bind_eq_ok.mp h
    cases h
    cases op <;> exact .assign ((grounded rest).expr hvalue)
  · split at h
    · next hends =>
      cases h
      dsimp only
      rw [← advanced_eq]
      exact .step (endsStatement_iff.mp hends)
    · next hends =>
      obtain ⟨e, he, h⟩ := bind_eq_ok.mp h
      cases h
      exact .stepped (fun h => hends (endsStatement_iff.mpr h)) ((grounded _).operators he)
  · next hbracket hassign hstep =>
    obtain ⟨e, he, h⟩ := bind_eq_ok.mp h
    cases h
    exact .result (plain_of_ne hbracket hassign hstep) ((grounded _).expr he)

/-- None of the first branches of the reader of programs takes the tokens. -/
theorem not_ends_of_ne {ts : List Token} (hnil : ts ≠ [])
    (hcomma : ∀ pos rest, ts ≠ ⟨.comma, pos⟩ :: rest)
    (hsemicolon : ∀ pos rest, ts ≠ ⟨.semicolon, pos⟩ :: rest) : ¬Ends (lexemesOf ts) := by
  rw [Ends, head?_lexemesOf, head?_lexemesOf, List.map_eq_nil_iff]
  rintro (h | ⟨pos, rest, h⟩ | ⟨pos, rest, h⟩)
  · exact hnil h
  · exact hcomma pos rest h
  · exact hsemicolon pos rest h

theorem program_derives {ts : List Token} {p : Program} (h : program stop ts = .ok p) :
    DerivesProgram (lexemesOf ts) p := by
  induction hn : ts.length using Nat.strongRecOn generalizing ts p with
  | ind n ih =>
    rw [program.eq_def] at h
    split at h
    · cases h
      exact .done
    · next pos rest =>
      obtain ⟨p, hp, h⟩ := bind_eq_ok.mp h
      cases h
      exact .empty (.inl rfl) (ih rest.length (by simp at hn; omega) hp rfl)
    · next pos rest =>
      obtain ⟨p, hp, h⟩ := bind_eq_ok.mp h
      cases h
      exact .empty (.inr rfl) (ih rest.length (by simp at hn; omega) hp rfl)
    · next hnil hcomma hsemicolon =>
      -- none of the branches above took the tokens, so a statement stands in front
      have hends := not_ends_of_ne hnil hcomma hsemicolon
      obtain ⟨s, hs, h⟩ := bind_eq_ok.mp h
      have hd := statement_derives hs
      have hlt := s.lt
      split at h
      · next hrest =>
        cases h
        rw [hrest] at hd
        exact .last hends hd
      · next pos rest hrest =>
        obtain ⟨p, hp, h⟩ := bind_eq_ok.mp h
        cases h
        rw [hrest] at hd hlt
        exact .more hends hd (.inl rfl) (ih rest.length (by simp at hlt; omega) hp rfl)
      · next pos rest hrest =>
        obtain ⟨p, hp, h⟩ := bind_eq_ok.mp h
        cases h
        rw [hrest] at hd hlt
        exact .more hends hd (.inr rfl) (ih rest.length (by simp at hlt; omega) hp rfl)
      · cases h

/-- The reader of programs reads exactly what the rules derive. -/
theorem program_ok_iff {ts : List Token} {p : Program} :
    program stop ts = .ok p ↔ DerivesProgram (lexemesOf ts) p :=
  ⟨program_derives, fun h => h.accepts ts rfl⟩

end FieldLang
