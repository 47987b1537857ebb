/-
Where reading fails.

* `Stuck`, `StuckNames`, `StuckStatement`, `StuckProgram` : the ways in which reading fails, as rules
  over rows of lexemes;
* `program_failsAt` : a failure of the reader of programs is one of them, and the offset of its error is
  that of the first lexeme that was not read.

Design notes: there is one rule for every branch of a reader that fails, as there is one rule of the
grammar for every branch that succeeds. The second row of lexemes is what is in front of the reader
when it fails. Two failures are not about the lexeme in front. That an array target names nothing is
noted behind its brackets and reported at the first of them: its rule is marked. That an array is
assigned a list of another length has no rule, since lists are kept out by a premise.
-/
import FieldLang.Proofs.Syntax.Layers

namespace FieldLang

/-! ### The rules -/

/-- Reading a phrase from some lexemes fails in front of others. -/
inductive Stuck : Phrase → List Lexeme → List Lexeme → Prop where
  | operand {least ls rest} : Stuck .operand ls rest → Stuck (.expr least) ls rest
  | operators {least ls first mid rest} : Derives .operand ls [first] mid →
      Stuck (.operators least first) mid rest → Stuck (.expr least) ls rest
  | unexpected {ls} : (∀ l, ls.head? = some l → ¬l.Opens) → Stuck .operand ls ls
  | uncalled {f ls} : ls.head? ≠ some .lparen → Stuck .operand (.function f :: ls) ls
  | call {f ls rest} : Stuck .arguments ls rest → Stuck .operand (.function f :: .lparen :: ls) rest
  | parens {ls rest} : Stuck (.expr 0) ls rest → Stuck .operand (.lparen :: ls) rest
  | unclosed {ls e rest} : Derives (.expr 0) ls [e] rest → rest.head? ≠ some .rparen →
      Stuck .operand (.lparen :: ls) rest
  | minus {ls rest} : Stuck (.expr signPower) ls rest → Stuck .operand (.operator .sub :: ls) rest
  | plus {ls rest} : Stuck (.expr signPower) ls rest → Stuck .operand (.operator .add :: ls) rest
  | ifTrue {least lhs ls rest} : least ≤ conditionPower → Stuck (.expr 0) ls rest →
      Stuck (.operators least lhs) (.question :: ls) rest
  | colon {least lhs ls ifTrue rest} : least ≤ conditionPower →
      Derives (.expr 0) ls [ifTrue] rest → rest.head? ≠ some .colon →
      Stuck (.operators least lhs) (.question :: ls) rest
  | ifFalse {least lhs ls ifTrue mid rest} : least ≤ conditionPower →
      Derives (.expr 0) ls [ifTrue] (.colon :: mid) → Stuck (.expr branchPower) mid rest →
      Stuck (.operators least lhs) (.question :: ls) rest
  | conditional {least lhs ls ifTrue mid ifFalse mid' rest} : least ≤ conditionPower →
      Derives (.expr 0) ls [ifTrue] (.colon :: mid) →
      Derives (.expr branchPower) mid [ifFalse] mid' →
      Stuck (.operators least (.conditional lhs ifTrue ifFalse)) mid' rest →
      Stuck (.operators least lhs) (.question :: ls) rest
  | right {least lhs op ls rest} : least ≤ op.leftPower → Stuck (.expr op.rightPower) ls rest →
      Stuck (.operators least lhs) (.operator op :: ls) rest
  | binary {least lhs op ls rhs mid rest} : least ≤ op.leftPower →
      Derives (.expr op.rightPower) ls [rhs] mid →
      Stuck (.operators least (.binary op lhs rhs)) mid rest →
      Stuck (.operators least lhs) (.operator op :: ls) rest
  | bracketed {ls rest} : Stuck .items ls rest → Stuck .argument (.lbracket :: ls) rest
  | single {ls rest} : ls.head? ≠ some .lbracket → Stuck (.expr 0) ls rest → Stuck .argument ls rest
  | firstArgument {ls rest} : ls.head? ≠ some .rparen → Stuck .argument ls rest →
      Stuck .arguments ls rest
  | unclosedArguments {ls es rest} : ls.head? ≠ some .rparen → Derives .argument ls es rest →
      rest.head? ≠ some .comma → rest.head? ≠ some .rparen → Stuck .arguments ls rest
  | moreArguments {ls es mid rest} : ls.head? ≠ some .rparen →
      Derives .argument ls es (.comma :: mid) → Stuck .arguments mid rest → Stuck .arguments ls rest
  | firstItem {ls rest} : ls.head? ≠ some .rbracket → Stuck (.expr 0) ls rest → Stuck .items ls rest
  | unclosedItems {ls e rest} : ls.head? ≠ some .rbracket → Derives (.expr 0) ls [e] rest →
      rest.head? ≠ some .comma → rest.head? ≠ some .rbracket → Stuck .items ls rest
  | moreItems {ls e mid rest} : ls.head? ≠ some .rbracket →
      Derives (.expr 0) ls [e] (.comma :: mid) → Stuck .items mid rest → Stuck .items ls rest

/-- Reading names up to a square bracket fails in front of some lexemes. -/
inductive StuckNames : List Lexeme → List Lexeme → Prop where
  | unnamed {ls} : ls.head? ≠ some .rbracket → (∀ name, ls.head? ≠ some (.variable name)) →
      StuckNames ls ls
  | unclosed {name ls} : ls.head? ≠ some .comma → ls.head? ≠ some .rbracket →
      StuckNames (.variable name :: ls) ls
  | more {name ls rest} : StuckNames ls rest → StuckNames (.variable name :: .comma :: ls) rest

/-- Reading a statement fails in front of some lexemes, with `false` for an array target without
names. -/
inductive StuckStatement : Bool → List Lexeme → List Lexeme → Prop where
  | names {ls rest} : StuckNames ls rest → StuckStatement true (.lbracket :: ls) rest
  | noNames {ls rest} : DerivesNames ls [] rest →
      StuckStatement false (.lbracket :: ls) (.lbracket :: ls)
  | equals {ls names rest} : DerivesNames ls names rest → names ≠ [] →
      rest.head? ≠ some (.assign .plain) → StuckStatement true (.lbracket :: ls) rest
  | unpack {ls names mid rest} : DerivesNames ls names (.assign .plain :: mid) → names ≠ [] →
      mid.head? ≠ some .lbracket → Stuck (.expr 0) mid rest →
      StuckStatement true (.lbracket :: ls) rest
  | assign {name op ls rest} : Stuck (.expr 0) ls rest →
      StuckStatement true (.variable name :: .assign op :: ls) rest
  | stepped {name op ls rest} : ¬Ends ls → Stuck (.operators 0 (.step name op)) ls rest →
      StuckStatement true (.variable name :: .step op :: ls) rest
  | result {ls rest} : Plain ls → Stuck (.expr 0) ls rest → StuckStatement true ls rest

/-- Reading a program fails in front of some lexemes. -/
inductive StuckProgram : Bool → List Lexeme → List Lexeme → Prop where
  | empty {b l ls rest} : l = .comma ∨ l = .semicolon → StuckProgram b ls rest →
      StuckProgram b (l :: ls) rest
  | statement {b ls rest} : ¬Ends ls → StuckStatement b ls rest → StuckProgram b ls rest
  | separator {ls s rest} : ¬Ends ls → DerivesStatement ls s rest → ¬Ends rest →
      StuckProgram true ls rest
  | more {b ls s l mid rest} : ¬Ends ls → DerivesStatement ls s (l :: mid) →
      l = .comma ∨ l = .semicolon → StuckProgram b mid rest → StuckProgram b ls rest

/-! ### Failures and their offsets -/

/-- The offset of the first of some last tokens of a program that ends at offset `stop`. -/
def offsetOf (stop : Nat) (ts : List Token) : Nat := (ts.head?.map Token.pos).getD stop

/-- An error at the first of some last tokens, in front of which reading has failed. -/
def FailsAt (stop : Nat) (S : List Lexeme → List Lexeme → Prop) (ts : List Token) (e : ParseError) :
    Prop :=
  ∃ rest, rest <:+ ts ∧ S (lexemesOf ts) (lexemesOf rest) ∧ e.position = some (offsetOf stop rest)

section FailsAt

variable {stop : Nat} {S S' : List Lexeme → List Lexeme → Prop} {ts ts' : List Token} {e : ParseError}

/-- A failure inside a part is a failure of the whole. -/
theorem FailsAt.lift (h : FailsAt stop S ts e) (hts : ts <:+ ts')
    (hS : ∀ rest, S (lexemesOf ts) rest → S' (lexemesOf ts') rest) : FailsAt stop S' ts' e := by
  obtain ⟨rest, hrest, hs, hpos⟩ := h
  exact ⟨rest, hrest.trans hts, hS _ hs, hpos⟩

theorem failsAt_of_failAt {α : Type} {fault : Option Lexeme → ParseFault}
    (h : (failAt stop ts fault : Except ParseError α) = .error e) (hts : ts <:+ ts')
    (hS : S' (lexemesOf ts') (lexemesOf ts)) : FailsAt stop S' ts' e := by
  cases h
  exact ⟨ts, hts, hS, rfl⟩

end FailsAt

/-- Reading leaves some last tokens unread, or fails with the first of those. -/
structure Sited {β : Type} (stop : Nat) (S : List Lexeme → List Lexeme → Prop) (ts : List Token)
    (rest : β → List Token) (r : Except ParseError β) : Prop where
  ok : ∀ {b}, r = .ok b → rest b <:+ ts
  error : ∀ {e}, r = .error e → FailsAt stop S ts e

section Sited

variable {stop : Nat} {S S' : List Lexeme → List Lexeme → Prop} {ts ts' : List Token}
variable {β β' : Type} {rest : β → List Token} {rest' : β' → List Token}

theorem sited_ok {b : β} (h : rest b <:+ ts) : Sited stop S ts rest (.ok b) :=
  ⟨fun hb => by cases hb; exact h, nofun⟩

theorem sited_failAt {fault : Option Lexeme → ParseFault} (hts : ts <:+ ts')
    (hS : S (lexemesOf ts') (lexemesOf ts)) : Sited stop S ts' rest (failAt stop ts fault) :=
  ⟨nofun, fun h => failsAt_of_failAt h hts hS⟩

/-- A first part of the reading is on some of the tokens, and what follows is on those it left. -/
theorem Sited.bind {r : Except ParseError β} {f : β → Except ParseError β'}
    (h : Sited stop S ts rest r) (hts : ts <:+ ts')
    (hS : ∀ rest, S (lexemesOf ts) rest → S' (lexemesOf ts') rest)
    (hf : ∀ b, r = .ok b → rest b <:+ ts' → Sited stop S' ts' rest' (f b)) :
    Sited stop S' ts' rest' (r >>= f) := by
  cases r with
  | error e => exact ⟨nofun, fun he => by cases he; exact (h.error rfl).lift hts hS⟩
  | ok b => exact hf b rfl ((h.ok rfl).trans hts)

end Sited

/-! ### Expressions -/

-- Naming the readers here generates their equations once, ahead of the proofs that use them.
attribute [local simp] expr operand operators argument arguments items names program

/-- The readers of expressions fail on some tokens as the rules say. -/
structure Fails (stop : Nat) (ts : List Token) : Prop where
  operand : Sited stop (Stuck .operand) ts Taken.rest (operand stop ts)
  operators : ∀ least lhs,
    Sited stop (Stuck (.operators least lhs)) ts Kept.rest (operators stop least lhs ts)
  expr : ∀ least, Sited stop (Stuck (.expr least)) ts Taken.rest (expr stop least ts)
  argument : Sited stop (Stuck .argument) ts Taken.rest (argument stop ts)
  arguments : ∀ opened, Sited stop (Stuck .arguments) ts Taken.rest (arguments stop opened ts)
  items : ∀ opened, Sited stop (Stuck .items) ts Taken.rest (items stop opened ts)

theorem suffix_of_eq_cons {τ : Type} {a b c : List τ} {t : τ} (h : a = t :: b) (hs : a <:+ c) :
    b <:+ c := ((List.suffix_cons t b).trans (h ▸ List.suffix_refl a)).trans hs

section Step

variable {stop : Nat} {ts : List Token} (ih : ∀ ts', ts'.length < ts.length → Fails stop ts')
include ih

theorem fails_operand : Sited stop (Stuck .operand) ts Taken.rest (operand stop ts) := by
  rw [operand.eq_def]
  -- a branch of the reader succeeds, hands on the failure of a part, or fails itself
  split
  · exact sited_ok (List.suffix_cons _ _)
  · exact sited_ok ((List.suffix_cons _ _).trans (List.suffix_cons _ _))
  · exact sited_ok (List.suffix_cons _ _)
  · next f opened pos rest =>
    have hargs := (ih rest (by simp only [List.length_cons]; omega)).arguments opened
    refine hargs.bind ((List.suffix_cons _ _).trans (List.suffix_cons _ _)) (fun _ => .call) ?_
    exact fun args _ hs => sited_ok hs
  · next f pos rest hfront =>
    refine sited_failAt (List.suffix_cons _ _) (.uncalled ?_)
    exact head?_lexemesOf_ne.mpr fun pos' rest' heq => hfront pos' rest' heq
  · next pos rest =>
    refine ((ih rest (by simp)).expr 0).bind (List.suffix_cons _ _) (fun _ => .parens) ?_
    intro inner hinner hs
    have hd := (grounded rest).expr hinner
    split
    · next hrest => exact sited_ok (suffix_of_eq_cons hrest hs)
    · next hrest =>
      exact sited_failAt hs (.unclosed hd (head?_lexemesOf_ne.mpr hrest))
  · next pos rest =>
    refine ((ih rest (by simp)).expr signPower).bind (List.suffix_cons _ _) (fun _ => .minus) ?_
    exact fun inner _ hs => sited_ok hs
  · next pos rest =>
    refine ((ih rest (by simp)).expr signPower).bind (List.suffix_cons _ _) (fun _ => .plus) ?_
    exact fun inner _ hs => sited_ok hs
  -- no branch takes the lexeme in front, so it opens no operand
  · next hnumber _ hvariable _ hfunction hparen hsub hadd =>
    refine sited_failAt (List.suffix_refl _) (.unexpected fun l hl hopens => ?_)
    obtain ⟨pos, rest, rfl⟩ := head?_lexemesOf.mp hl
    cases l with
    | number value => exact hnumber value pos rest rfl
    | «variable» name => exact hvariable name pos rest rfl
    | function f => exact hfunction f pos rest rfl
    | lparen => exact hparen pos rest rfl
    | operator op =>
      cases op with
      | sub => exact hsub pos rest rfl
      | add => exact hadd pos rest rfl
      | _ => exact hopens.elim
    | _ => exact hopens.elim

theorem fails_operators (least : Nat) (lhs : Expr) :
    Sited stop (Stuck (.operators least lhs)) ts Kept.rest (operators stop least lhs ts) := by
  rw [operators.eq_def]
  split
  · next pos rest =>
    -- to leave an operator alone is no failure
    by_cases hlt : conditionPower < least
    · rw [if_pos hlt]
      exact sited_ok (List.suffix_refl _)
    · rw [if_neg hlt]
      have hleast : least ≤ conditionPower := by omega
      refine ((ih rest (by simp)).expr 0).bind (List.suffix_cons _ _) (fun _ => .ifTrue hleast) ?_
      intro ifTrue htrue hs
      have hd := (grounded rest).expr htrue
      have hlen := ifTrue.lt
      split
      -- what is read behind the colon begins in what the first branch left
      · next pos' after hrest =>
        rw [hrest] at hd hlen
        simp only [List.length_cons] at hlen
        have hs' := suffix_of_eq_cons hrest hs
        refine ((ih after (by simp only [List.length_cons]; omega)).expr branchPower).bind hs'
          (fun _ => .ifFalse hleast hd) ?_
        intro ifFalse hfalse hs''
        have hd' := (grounded after).expr hfalse
        have hlen' := ifFalse.lt
        refine ((ih ifFalse.rest (by simp only [List.length_cons]; omega)).operators least _).bind hs''
          (fun _ => .conditional hleast hd hd') ?_
        exact fun whole _ hs => sited_ok hs
      · next hrest =>
        exact sited_failAt hs (.colon hleast hd (head?_lexemesOf_ne.mpr hrest))
  · next op pos rest =>
    by_cases hlt : op.leftPower < least
    · rw [if_pos hlt]
      exact sited_ok (List.suffix_refl _)
    · rw [if_neg hlt]
      have hleast : least ≤ op.leftPower := by omega
      refine ((ih rest (by simp)).expr op.rightPower).bind (List.suffix_cons _ _)
        (fun _ => .right hleast) ?_
      intro rhs hrhs hs
      have hd := (grounded rest).expr hrhs
      have hlen := rhs.lt
      refine ((ih rhs.rest (by simp only [List.length_cons]; omega)).operators least _).bind hs
        (fun _ => .binary hleast hd) ?_
      exact fun whole _ hs => sited_ok hs
  · exact sited_ok (List.suffix_refl _)

theorem fails_expr (least : Nat) :
    Sited stop (Stuck (.expr least)) ts Taken.rest (expr stop least ts) := by
  rw [expr]
  refine (fails_operand ih).bind (List.suffix_refl _) (fun _ => .operand) ?_
  intro first hfirst hs
  have hd := (grounded ts).operand hfirst
  refine ((ih first.rest first.lt).operators least first.value).bind hs (fun _ => .operators hd) ?_
  exact fun whole _ hs => sited_ok hs

theorem fails_argument : Sited stop (Stuck .argument) ts Taken.rest (argument stop ts) := by
  rw [argument.eq_def]
  split
  · next opened rest =>
    refine ((ih rest (by simp)).items opened).bind (List.suffix_cons _ _) (fun _ => .bracketed) ?_
    exact fun list _ hs => sited_ok hs
  · next hfront =>
    refine (fails_expr ih 0).bind (List.suffix_refl _)
      (fun _ => .single (head?_lexemesOf_ne.mpr hfront)) ?_
    exact fun e _ hs => sited_ok hs

theorem fails_arguments (opened : Nat) :
    Sited stop (Stuck .arguments) ts Taken.rest (arguments stop opened ts) := by
  rw [arguments.eq_def]
  split
  · exact sited_ok (List.suffix_cons _ _)
  · next hfront =>
    have hhead : (lexemesOf ts).head? ≠ some .rparen := head?_lexemesOf_ne.mpr hfront
    refine (fails_argument ih).bind (List.suffix_refl _) (fun _ => .firstArgument hhead) ?_
    intro first hfirst hs
    have hd := (grounded ts).argument hfirst
    have hlen := first.lt
    split
    · next pos after hrest =>
      rw [hrest] at hd hlen
      simp only [List.length_cons] at hlen
      refine ((ih after (by omega)).arguments opened).bind (suffix_of_eq_cons hrest hs)
        (fun _ => .moreArguments hhead hd) ?_
      exact fun more _ hs => sited_ok hs
    · next hrest => exact sited_ok (suffix_of_eq_cons hrest hs)
    · next hcomma hparen =>
      exact sited_failAt hs (.unclosedArguments hhead hd (head?_lexemesOf_ne.mpr hcomma)
        (head?_lexemesOf_ne.mpr hparen))

theorem fails_items (opened : Nat) :
    Sited stop (Stuck .items) ts Taken.rest (items stop opened ts) := by
  rw [items.eq_def]
  split
  · exact sited_ok (List.suffix_cons _ _)
  · next hfront =>
    have hhead : (lexemesOf ts).head? ≠ some .rbracket := head?_lexemesOf_ne.mpr hfront
    refine (fails_expr ih 0).bind (List.suffix_refl _) (fun _ => .firstItem hhead) ?_
    intro first hfirst hs
    have hd := (grounded ts).expr hfirst
    have hlen := first.lt
    split
    · next pos after hrest =>
      rw [hrest] at hd hlen
      simp only [List.length_cons] at hlen
      refine ((ih after (by omega)).items opened).bind (suffix_of_eq_cons hrest hs)
        (fun _ => .moreItems hhead hd) ?_
      exact fun more _ hs => sited_ok hs
    · next hrest => exact sited_ok (suffix_of_eq_cons hrest hs)
    · next hcomma hbracket =>
      exact sited_failAt hs (.unclosedItems hhead hd (head?_lexemesOf_ne.mpr hcomma)
        (head?_lexemesOf_ne.mpr hbracket))

end Step

/-- The readers of expressions fail as the rules say, by induction on the number of tokens. -/
theorem fails (stop : Nat) (ts : List Token) : Fails stop ts := by
  induction hn : ts.length using Nat.strongRecOn generalizing ts with
  | ind n ih =>
    have ih' : ∀ ts', ts'.length < ts.length → Fails stop ts' :=
      fun ts' hlt => ih ts'.length (hn ▸ hlt) ts' rfl
    exact
      { operand := fails_operand ih'
        operators := fails_operators ih'
        expr := fails_expr ih'
        argument := fails_argument ih'
        arguments := fails_arguments ih'
        items := fails_items ih' }

/-! ### Statements and programs -/

variable {stop : Nat}

theorem fails_names (opened : Nat) (ts : List Token) :
    Sited stop StuckNames ts Taken.rest (names stop opened ts) := by
  induction hn : ts.length using Nat.strongRecOn generalizing ts with
  | ind n ih =>
    rw [names.eq_def]
    split
    · exact sited_ok (List.suffix_cons _ _)
    · next name pos pos' rest =>
      have hmore := ih rest.length (by simp at hn; omega) rest rfl
      refine hmore.bind ((List.suffix_cons _ _).trans (List.suffix_cons _ _)) (fun _ => .more) ?_
      exact fun more _ hs => sited_ok hs
    · exact sited_ok ((List.suffix_cons _ _).trans (List.suffix_cons _ _))
    · next name pos rest hcomma hbracket =>
      refine sited_failAt (List.suffix_cons _ _) (.unclosed ?_ ?_)
      · exact head?_lexemesOf_ne.mpr fun pos' rest' heq => hcomma pos' rest' heq
      · exact head?_lexemesOf_ne.mpr fun pos' rest' heq => hbracket pos' rest' heq
    · next hbracket _ _ hvariable =>
      refine sited_failAt (List.suffix_refl _) (.unnamed (head?_lexemesOf_ne.mpr hbracket) ?_)
      exact fun name => head?_lexemesOf_ne.mpr (hvariable name)

/-- No plain assignment is directly followed by a list. -/
def NoLists (ls : List Lexeme) : Prop :=
  ∀ before after, ls ≠ before ++ .assign .plain :: .lbracket :: after

theorem NoLists.of_suffix {ts ts' : List Token} (h : NoLists (lexemesOf ts)) (hs : ts' <:+ ts) :
    NoLists (lexemesOf ts') := by
  obtain ⟨front, rfl⟩ := hs
  intro before after heq
  refine h (lexemesOf front ++ before) after ?_
  rw [lexemesOf, List.map_append, List.append_assoc, ← heq]

theorem fails_arrayValue {targets : List String} {ls : List Lexeme} {ts : List Token}
    (hnames : DerivesNames ls targets (lexemesOf ts)) (hne : targets ≠ [])
    (hlists : NoLists (lexemesOf ts)) :
    Sited stop (fun _ => StuckStatement true (.lbracket :: ls)) ts Taken.rest
      (arrayValue stop targets ts) := by
  rw [arrayValue.eq_def]
  split
  · exact absurd rfl (hlists [] _)
  · next pos rest hfront =>
    have hhead : (lexemesOf rest).head? ≠ some .lbracket :=
      head?_lexemesOf_ne.mpr fun pos' rest' heq => hfront pos' rest' heq
    refine ((fails stop rest).expr 0).bind (List.suffix_cons _ _)
      (fun _ => .unpack hnames hne hhead) ?_
    exact fun value _ hs => sited_ok hs
  · next hassign =>
    refine sited_failAt (List.suffix_refl _) (.equals hnames hne ?_)
    exact head?_lexemesOf_ne.mpr hassign

/-- A failure to read a statement follows the rules; the rule for an array target without names is
kept for the error that says so. -/
def StatementFails (stop : Nat) (ts : List Token) (e : ParseError) : Prop :=
  ∃ b, (b = false → e.fault = .noNames) ∧ FailsAt stop (StuckStatement b) ts e

theorem statement_suffix {ts : List Token} {t : Taken Stmt ts} (hlists : NoLists (lexemesOf ts))
    (h : statement stop ts = .ok t) : t.rest <:+ ts := by
  rw [statement.eq_def] at h
  -- one goal for each branch of the reader, of which every part leaves an end of its tokens
  split at h
  · next opened rest =>
    obtain ⟨targets, htargets, h⟩ := bind_eq_ok.mp h
    split at h
    · cases h
    · next hne =>
      obtain ⟨s, hs, h⟩ := bind_eq_ok.mp h
      cases h
      have hmid := ((fails_names opened rest).ok htargets).trans
        (List.suffix_cons ⟨.lbracket, opened⟩ rest)
      have hd := names_derives htargets
      exact ((fails_arrayValue hd hne (hlists.of_suffix hmid)).ok hs).trans hmid
  · next name pos op pos' rest =>
    obtain ⟨value, hvalue, h⟩ := bind_eq_ok.mp h
    cases h
    exact (((fails stop rest).expr 0).ok hvalue).trans
      ((List.suffix_cons _ _).trans (List.suffix_cons _ _))
  · next name pos op pos' rest =>
    have hrest : rest <:+ ⟨.variable name, pos⟩ :: ⟨.step op, pos'⟩ :: rest :=
      (List.suffix_cons _ _).trans (List.suffix_cons _ _)
    split at h
    · cases h
      exact hrest
    · obtain ⟨e, he, h⟩ := bind_eq_ok.mp h
      cases h
      exact (((fails stop rest).operators 0 _).ok he).trans hrest
  · obtain ⟨e, he, h⟩ := bind_eq_ok.mp h
    cases h
    exact ((fails stop ts).expr 0).ok he

theorem statement_fails {ts : List Token} {e : ParseError} (hlists : NoLists (lexemesOf ts))
    (h : statement stop ts = .error e) : StatementFails stop ts e := by
  rw [statement.eq_def] at h
  -- one goal for each branch of the reader
  split at h
  · next opened rest =>
    obtain h | ⟨targets, htargets, h⟩ := bind_eq_error.mp h
    · exact ⟨true, by simp, ((fails_names opened rest).error h).lift (List.suffix_cons _ _)
        fun _ => .names⟩
    have hd := names_derives htargets
    have hmid := ((fails_names opened rest).ok htargets).trans
      (List.suffix_cons ⟨.lbracket, opened⟩ rest)
    split at h
    -- without names the error is at the bracket, though more was read: the marked failure
    · next hnone =>
      cases h
      rw [hnone] at hd
      exact ⟨false, fun _ => rfl, _, List.suffix_refl _, .noNames hd, rfl⟩
    · next hne =>
      obtain h | ⟨s, -, h⟩ := bind_eq_error.mp h
      · have herror := (fails_arrayValue hd hne (hlists.of_suffix hmid)).error h
        exact ⟨true, by simp, herror.lift hmid fun _ => id⟩
      · cases h
  · next name pos op pos' rest =>
    obtain h | ⟨value, -, h⟩ := bind_eq_error.mp h
    · exact ⟨true, by simp, (((fails stop rest).expr 0).error h).lift
        ((List.suffix_cons _ _).trans (List.suffix_cons _ _)) fun _ => .assign⟩
    · cases h
  · next name pos op pos' rest =>
    split at h
    · cases h
    · next hends =>
      obtain h | ⟨value, -, h⟩ := bind_eq_error.mp h
      · exact ⟨true, by simp, (((fails stop rest).operators 0 _).error h).lift
          ((List.suffix_cons _ _).trans (List.suffix_cons _ _))
          fun _ => .stepped fun hls => hends (endsStatement_iff.mpr hls)⟩
      · cases h
  · next hbracket hassign hstep =>
    obtain h | ⟨value, -, h⟩ := bind_eq_error.mp h
    · exact ⟨true, by simp, (((fails stop ts).expr 0).error h).lift (List.suffix_refl _)
        fun _ => .result (plain_of_ne hbracket hassign hstep)⟩
    · cases h

/-- A failure to read a program follows the rules, and its error is at the lexeme in front. -/
theorem program_failsAt {ts : List Token} {e : ParseError} (hlists : NoLists (lexemesOf ts))
    (h : program stop ts = .error e) :
    ∃ b, (b = false → e.fault = .noNames) ∧ FailsAt stop (StuckProgram b) ts e := by
  induction hn : ts.length using Nat.strongRecOn generalizing ts with
  | ind n ih =>
    rw [program.eq_def] at h
    -- separators in front, then a statement with what stands behind it
    split at h
    · cases h
    · next pos rest =>
      obtain h | ⟨p, -, h⟩ := bind_eq_error.mp h
      · obtain ⟨b, hb, hfails⟩ := ih rest.length (by simp at hn; omega)
          (hlists.of_suffix (List.suffix_cons _ _)) h rfl
        exact ⟨b, hb, hfails.lift (List.suffix_cons _ _) fun _ => .empty (.inl rfl)⟩
      · cases h
    · next pos rest =>
      obtain h | ⟨p, -, h⟩ := bind_eq_error.mp h
      · obtain ⟨b, hb, hfails⟩ := ih rest.length (by simp at hn; omega)
          (hlists.of_suffix (List.suffix_cons _ _)) h rfl
        exact ⟨b, hb, hfails.lift (List.suffix_cons _ _) fun _ => .empty (.inr rfl)⟩
      · cases h
    · next hnil hcomma hsemicolon =>
      have hends := not_ends_of_ne hnil hcomma hsemicolon
      -- a statement fails on its own, or what it leaves is neither empty nor a separator
      obtain h | ⟨s, hs, h⟩ := bind_eq_error.mp h
      · obtain ⟨b, hb, hfails⟩ := statement_fails hlists h
        exact ⟨b, hb, hfails.lift (List.suffix_refl _) fun _ => .statement hends⟩
      have hd := statement_derives hs
      have hsuffix := statement_suffix hlists hs
      have hlt := s.lt
      split at h
      · cases h
      · next pos rest hrest =>
        obtain h | ⟨p, -, h⟩ := bind_eq_error.mp h
        · have hrest' := suffix_of_eq_cons hrest hsuffix
          rw [hrest] at hd hlt
          obtain ⟨b, hb, hfails⟩ := ih rest.length (by simp at hlt; omega)
            (hlists.of_suffix hrest') h rfl
          exact ⟨b, hb, hfails.lift hrest' fun _ => .more hends hd (.inl rfl)⟩
        · cases h
      · next pos rest hrest =>
        obtain h | ⟨p, -, h⟩ := bind_eq_error.mp h
        · have hrest' := suffix_of_eq_cons hrest hsuffix
          rw [hrest] at hd hlt
          obtain ⟨b, hb, hfails⟩ := ih rest.length (by simp at hlt; omega)
            (hlists.of_suffix hrest') h rfl
          exact ⟨b, hb, hfails.lift hrest' fun _ => .more hends hd (.inr rfl)⟩
        · cases h
      · next hnil' hcomma' hsemicolon' =>
        have hends' := not_ends_of_ne hnil' hcomma' hsemicolon'
        exact ⟨true, by simp, failsAt_of_failAt h hsuffix (.separator hends hd hends')⟩

end FieldLang
