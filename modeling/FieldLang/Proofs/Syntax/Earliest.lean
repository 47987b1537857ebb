/-
Errors at the earliest token.

* `DerivesStatement.detach`, `StuckStatement.resumes`, `StuckProgram.resumes` : statements and programs
  up to a failure, and what may follow them;
* `parseTokens_error_earliest` : an error of the parser is at the first token that cannot be continued.

Design notes: what is read as an expression may have to be completed to something else, since a step on
its own is an assignment and no expression (`Derives.statement`). Whether lexemes begin an assignment
shows on the first two of them only, so a statement that fails at its first lexeme needs a word of its
own: no expression fails at a variable (`Stuck.length_of_variable`).
-/
import FieldLang.Proofs.Syntax.Completion

namespace FieldLang

/-! ### Names -/

theorem DerivesNames.unique {ls rest rest' : List Lexeme} {ns ns' : List String}
    (h : DerivesNames ls ns rest) (h' : DerivesNames ls ns' rest') : ns = ns' ∧ rest = rest' := by
  obtain ⟨t, ht, hvalue, hrest⟩ := h.accepts 0 0 _ (lexemesOf_tokensAt 0 ls)
  obtain ⟨t', ht', hvalue', hrest'⟩ := h'.accepts 0 0 _ (lexemesOf_tokensAt 0 ls)
  cases ht.symm.trans ht'
  exact ⟨hvalue.symm.trans hvalue', hrest.symm.trans hrest'⟩

theorem DerivesNames.detach {ls rest : List Lexeme} {ns : List String} (h : DerivesNames ls ns rest) :
    ∃ front, ls = front ++ rest ∧ ∀ rest', DerivesNames (front ++ rest') ns rest' := by
  obtain ⟨front, rfl, hfront⟩ := h.spelled
  refine ⟨front ++ [.rbracket], by simp, fun rest' => ?_⟩
  simpa using hfront.read rest'

theorem StuckNames.not_derives {ls rest : List Lexeme} (h : StuckNames ls rest) :
    ∀ {ns rest'}, ¬DerivesNames ls ns rest' := by
  induction h with
  | unnamed hbracket hname =>
    rintro _ _ (_ | _ | _)
    · exact hbracket rfl
    · exact hname _ rfl
    · exact hname _ rfl
  | unclosed hcomma hbracket =>
    rintro _ _ (_ | _ | _)
    · exact hcomma rfl
    · exact hbracket rfl
  | more _ ih =>
    rintro _ _ (_ | h | _)
    exact ih h

theorem StuckNames.resumes {ls rest : List Lexeme} (h : StuckNames ls rest) :
    ∃ front, ls = front ++ rest ∧
      (∀ rest', rest'.head? = rest.head? → StuckNames (front ++ rest') rest') ∧
      ∃ more ns, ns ≠ [] ∧ ∀ rest', DerivesNames (front ++ (more ++ rest')) ns rest' := by
  induction h with
  | unnamed hbracket hname =>
    refine ⟨[], rfl, fun rest' h => .unnamed (h ▸ hbracket) (h ▸ hname), ?_⟩
    exact ⟨[.variable "a", .rbracket], ["a"], List.cons_ne_nil _ _, fun _ => .last⟩
  | @unclosed name _ hcomma hbracket =>
    refine ⟨[.variable name], rfl, fun rest' h => .unclosed (h ▸ hcomma) (h ▸ hbracket), ?_⟩
    exact ⟨[.rbracket], [name], List.cons_ne_nil _ _, fun _ => .last⟩
  | @more name _ _ _ ih =>
    obtain ⟨front, rfl, hagain, more, ns, -, hmore⟩ := ih
    exact ⟨.variable name :: .comma :: front, rfl, fun rest' h => .more (hagain rest' h),
      more, name :: ns, List.cons_ne_nil _ _, fun rest' => .more (hmore rest')⟩

/-! ### Statements -/

section Statements

variable {ls ls' front rest rest' : List Lexeme} {s : Stmt}

theorem ends_congr (h : ls'.head? = ls.head?) : Ends ls' ↔ Ends ls := by
  rw [Ends, Ends, ← List.head?_eq_none_iff, ← List.head?_eq_none_iff, h]

theorem plain_of_not_variable (hbracket : ls.head? ≠ some .lbracket)
    (hname : ∀ name, ls.head? ≠ some (.variable name)) : Plain ls := by
  refine ⟨hbracket, ?_, ?_⟩
  · rintro name op rest rfl
    exact hname name rfl
  · rintro name op rest rfl
    exact hname name rfl

/-- Whether lexemes are plain shows on the first two. -/
theorem Plain.append_congr (h : Plain (front ++ rest)) (hne : front ≠ [])
    (hr : rest'.head? = rest.head?) : Plain (front ++ rest') := by
  cases front with
  | nil => exact absurd rfl hne
  | cons l front =>
    have hsecond : ∀ {l tail}, front ++ rest' = l :: tail → ∃ tail', front ++ rest = l :: tail' := by
      intro l tail htail
      refine List.head?_eq_some_iff.mp ?_
      rw [← head?_append_congr hr, htail, List.head?_cons]
    refine ⟨h.bracket, fun name op tail heq => ?_, fun name op tail heq => ?_⟩
    · obtain ⟨rfl, htail⟩ := List.cons.inj heq
      obtain ⟨tail', htail'⟩ := hsecond htail
      exact h.assign name op tail' (congrArg _ htail')
    · obtain ⟨rfl, htail⟩ := List.cons.inj heq
      obtain ⟨tail', htail'⟩ := hsecond htail
      exact h.step name op tail' (congrArg _ htail')

/-- An expression that goes to the end is a statement. -/
theorem Derives.statement {es : List Expr} (h : Derives (.expr 0) ls es []) :
    ∃ s, DerivesStatement ls s [] := by
  obtain ⟨e, rfl⟩ := h.expr_single
  by_cases hstep : ∃ name op, ls = [.variable name, .step op]
  · obtain ⟨name, op, rfl⟩ := hstep
    exact ⟨_, .step (.inl rfl)⟩
  · rw [← List.append_nil ls] at h ⊢
    refine ⟨_, derivesStatement_result (.inl rfl) (h.head?_expr_ne id) ?_ h⟩
    exact fun name op heq => hstep ⟨name, op, heq⟩

/-- What a statement takes it takes as well in front of others that begin with the same lexeme, and it
is a statement on its own. -/
theorem DerivesStatement.detach (h : DerivesStatement ls s rest) : ∃ front, ls = front ++ rest ∧
    front ≠ [] ∧ (∀ rest', rest'.head? = rest.head? → DerivesStatement (front ++ rest') s rest') ∧
    ∃ s', DerivesStatement front s' [] := by
  -- on its own a statement stands in front of nothing, which closes its last expression
  cases h with
  | @assignEach _ names _ values _ hnames hne hitems hlength =>
    obtain ⟨vs, rfl, -, hitems⟩ := hitems.detach
    obtain ⟨ns, rfl, hread⟩ := hnames.detach
    refine ⟨.lbracket :: (ns ++ .assign .plain :: .lbracket :: vs), by simp, by simp, ?_,
      .assignEach names values, ?_⟩
    · intro rest' h
      have := DerivesStatement.assignEach (hread _) hne (hitems rest' (.inl h)) hlength
      simpa using this
    · have := DerivesStatement.assignEach (hread _) hne (hitems [] (.inr closes_end)) hlength
      simpa using this
  | @unpack _ names _ value _ hnames hne hfront hvalue =>
    obtain ⟨vs, rfl, -, hvalue⟩ := hvalue.detach
    obtain ⟨ns, rfl, hread⟩ := hnames.detach
    refine ⟨.lbracket :: (ns ++ .assign .plain :: vs), by simp, by simp, ?_,
      .unpack names value, ?_⟩
    · intro rest' h
      have hvalue := hvalue rest' (.inl h)
      simpa using DerivesStatement.unpack (hread _) hne (hvalue.head?_expr_ne id) hvalue
    · have hvalue := hvalue [] (.inr closes_end)
      simpa using DerivesStatement.unpack (hread _) hne (hvalue.head?_expr_ne id) hvalue
  | @assign name op _ _ _ hvalue =>
    obtain ⟨vs, rfl, -, hvalue⟩ := hvalue.detach
    have hclosed := hvalue [] (.inr closes_end)
    rw [List.append_nil] at hclosed
    exact ⟨.variable name :: .assign op :: vs, rfl, by simp,
      fun rest' h => .assign (hvalue rest' (.inl h)), _, .assign hclosed⟩
  | @step name op _ hends =>
    exact ⟨[.variable name, .step op], rfl, by simp, fun rest' h => .step ((ends_congr h).mpr hends),
      _, .step (.inl rfl)⟩
  | @stepped name op _ _ _ hends hvalue =>
    obtain ⟨vs, rfl, -, hvalue⟩ := hvalue.detach
    refine ⟨.variable name :: .step op :: vs, rfl, by simp, fun rest' h => ?_, ?_⟩
    · refine .stepped (fun h' => hends ((ends_congr ?_).mp h')) (hvalue rest' (.inl h))
      exact head?_append_congr h
    -- the step is the first operand of what follows it
    · have := Derives.expr .step (hvalue [] (.inr closes_end))
      rw [List.append_nil] at this
      exact this.statement
  | result hplain hvalue =>
    obtain ⟨vs, rfl, hne, hvalue⟩ := hvalue.detach
    refine ⟨vs, rfl, hne trivial, fun rest' h => ?_, ?_⟩
    · exact .result (hplain.append_congr (hne trivial) h) (hvalue rest' (.inl h))
    · have := hvalue [] (.inr closes_end)
      rw [List.append_nil] at this
      exact this.statement

theorem DerivesStatement.unique {s' : Stmt} (h : DerivesStatement ls s rest)
    (h' : DerivesStatement ls s' rest') : s = s' ∧ rest = rest' := by
  obtain ⟨t, ht, hvalue, hrest⟩ := h.accepts 0 _ (lexemesOf_tokensAt 0 ls)
  obtain ⟨t', ht', hvalue', hrest'⟩ := h'.accepts 0 _ (lexemesOf_tokensAt 0 ls)
  cases ht.symm.trans ht'
  exact ⟨hvalue.symm.trans hvalue', hrest.symm.trans hrest'⟩

theorem StuckStatement.not_derives (h : StuckStatement true ls rest) :
    ¬DerivesStatement ls s rest' := by
  intro hd
  -- the first lexemes leave one rule to derive a statement, and its parts are those that were read
  cases h with
  | names hstuck =>
    cases hd with
    | assignEach hnames => exact hstuck.not_derives hnames
    | unpack hnames => exact hstuck.not_derives hnames
    | result hplain => exact hplain.bracket rfl
  | equals hnames _ hassign =>
    cases hd with
    | assignEach hnames' =>
      obtain ⟨-, rfl⟩ := hnames.unique hnames'
      exact hassign rfl
    | unpack hnames' =>
      obtain ⟨-, rfl⟩ := hnames.unique hnames'
      exact hassign rfl
    | result hplain => exact hplain.bracket rfl
  | unpack hnames _ hfront hstuck =>
    cases hd with
    | assignEach hnames' =>
      obtain ⟨-, ⟨⟩⟩ := hnames.unique hnames'
      exact hfront rfl
    | unpack hnames' _ _ hvalue =>
      obtain ⟨-, ⟨⟩⟩ := hnames.unique hnames'
      exact hstuck.not_derives hvalue
    | result hplain => exact hplain.bracket rfl
  | assign hstuck =>
    cases hd with
    | assign hvalue => exact hstuck.not_derives hvalue
    | result hplain => exact hplain.assign _ _ _ rfl
  | stepped hends hstuck =>
    cases hd with
    | step hends' => exact hends hends'
    | stepped _ hvalue => exact hstuck.not_derives hvalue
    | result hplain => exact hplain.step _ _ _ rfl
  | result hplain hstuck =>
    cases hd with
    | assignEach | unpack => exact hplain.bracket rfl
    | assign => exact hplain.assign _ _ _ rfl
    | step | stepped => exact hplain.step _ _ _ rfl
    | result _ hvalue => exact hstuck.not_derives hvalue

/-- Reading an expression does not fail at a variable. -/
theorem Stuck.length_of_variable {least : Nat} {name : String}
    (h : Stuck (.expr least) (.variable name :: ls) rest) : rest.length ≤ ls.length := by
  cases h with
  | operand h =>
    cases h with
    | unexpected hopens => exact absurd trivial (hopens _ rfl)
  | operators hfirst h =>
    obtain ⟨front, rfl, -⟩ := h.resumes
    cases hfirst with
    | name => simp
    | step => simp; omega

/-- Where reading a statement fails, what is in front can be completed to one; and unless the failure
is marked, nothing can be that goes on as the lexemes do. -/
theorem StuckStatement.resumes {b : Bool} (h : StuckStatement b ls rest) :
    ∃ front, ls = front ++ rest ∧
      (b = true → ∀ rest', rest'.head? = rest.head? → StuckStatement true (front ++ rest') rest') ∧
      ∃ more s, DerivesStatement (front ++ more) s [] := by
  cases h with
  -- names in brackets are completed to an unpacking
  | names h =>
    obtain ⟨front, rfl, hagain, more, ns, hne, hmore⟩ := h.resumes
    refine ⟨.lbracket :: front, rfl, fun _ rest' h => .names (hagain rest' h),
      more ++ [.assign .plain, .number 0], .unpack ns (.number 0), ?_⟩
    have := DerivesStatement.unpack (hmore [.assign .plain, .number 0]) hne nofun closes_end.number
    simpa using this
  -- this failure is at the bracket that opens the names, so nothing is in front of it
  | noNames =>
    refine ⟨[], rfl, nofun, [.number 0], _, .result ?_ closes_end.number⟩
    exact plain_of_not_variable nofun nofun
  | equals hnames hne hassign =>
    obtain ⟨front, rfl, hread⟩ := hnames.detach
    exact ⟨.lbracket :: front, rfl, fun _ rest' h => .equals (hread rest') hne (h ▸ hassign),
      [.assign .plain, .number 0], _, .unpack (hread _) hne nofun closes_end.number⟩
  | @unpack _ names _ _ hnames hne hfront h =>
    obtain ⟨front, rfl, hr⟩ := h.resumes
    obtain ⟨ns, rfl, hread⟩ := hnames.detach
    obtain ⟨more, e, hmore⟩ := hr.completes.expr
    refine ⟨.lbracket :: (ns ++ .assign .plain :: front), by simp, fun _ rest' h => ?_, more,
      .unpack names e, ?_⟩
    · have := StuckStatement.unpack (hread _) hne (by rwa [head?_append_congr h]) (hr.again rest' h)
      simpa using this
    · have hvalue := hmore [] closes_end
      simpa using DerivesStatement.unpack (hread _) hne (hvalue.head?_expr_ne id) hvalue
  | @assign name op _ _ h =>
    obtain ⟨front, rfl, hr⟩ := h.resumes
    obtain ⟨more, e, hmore⟩ := hr.completes.expr
    have hclosed := hmore [] closes_end
    rw [List.append_nil] at hclosed
    exact ⟨.variable name :: .assign op :: front, rfl, fun _ rest' h => .assign (hr.again rest' h),
      more, _, .assign hclosed⟩
  | @stepped name op _ _ hends h =>
    obtain ⟨front, rfl, hr⟩ := h.resumes
    obtain ⟨more, e, hmore⟩ := hr.completes.operators
    refine ⟨.variable name :: .step op :: front, rfl, fun _ rest' h => ?_, more, ?_⟩
    · refine .stepped (fun h' => hends ((ends_congr ?_).mp h')) (hr.again rest' h)
      exact head?_append_congr h
    · have := Derives.expr .step (hmore [] closes_end)
      rw [List.append_nil] at this
      exact this.statement
  | result hplain h =>
    have hvariable : ∀ {name tail}, ls = .variable name :: tail → rest.length ≤ tail.length :=
      fun heq => Stuck.length_of_variable (heq ▸ h)
    obtain ⟨front, rfl, hr⟩ := h.resumes
    obtain ⟨more, e, hmore⟩ := hr.completes.expr
    refine ⟨front, rfl, fun _ rest' hrest => .result ?_ (hr.again rest' hrest), more, ?_⟩
    -- the failing expression does not begin with a variable if it fails at its first lexeme
    · by_cases hne : front = []
      · subst hne
        refine plain_of_not_variable (hrest ▸ hplain.bracket) fun name hname => ?_
        rw [List.nil_append, hrest] at hname
        obtain ⟨tail, rfl⟩ := List.head?_eq_some_iff.mp hname
        exact absurd (hvariable rfl) (by simp)
      · exact hplain.append_congr hne hrest
    · have := hmore [] closes_end
      rw [List.append_nil] at this
      exact this.statement

end Statements

/-! ### Programs -/

theorem DerivesStatement.not_ends {ls : List Lexeme} {s : Stmt} (h : DerivesStatement ls s []) :
    ¬Ends ls := by
  obtain ⟨front, rfl, hfront⟩ := h.spelled (.inl rfl)
  exact hfront.not_ends []

theorem StuckProgram.not_derives {ls rest : List Lexeme} {p : Program} (h : StuckProgram true ls rest) :
    ¬DerivesProgram ls p := by
  intro hd
  -- the mark is an index of the relation, so it has to be a variable for the induction
  generalize hb : true = b at h
  induction h generalizing p with
  | empty hl _ ih =>
    cases hd with
    | empty _ hd => exact ih hd hb
    | last hends => exact hends (by simpa [Ends] using hl)
    | more hends => exact hends (by simpa [Ends] using hl)
  | statement hends hstuck =>
    subst hb
    cases hd with
    | done => exact hends (.inl rfl)
    | empty hl => exact hends (by simpa [Ends] using hl)
    | last _ hs => exact hstuck.not_derives hs
    | more _ hs => exact hstuck.not_derives hs
  | separator hends hs hrest =>
    cases hd with
    | done => exact hends (.inl rfl)
    | empty hl => exact hends (by simpa [Ends] using hl)
    | last _ hs' =>
      obtain ⟨-, rfl⟩ := hs.unique hs'
      exact hrest (.inl rfl)
    | more _ hs' hl =>
      obtain ⟨-, rfl⟩ := hs.unique hs'
      exact hrest (by simpa [Ends] using hl)
  | more hends hs hl _ ih =>
    cases hd with
    | done => exact hends (.inl rfl)
    | empty hl => exact hends (by simpa [Ends] using hl)
    | last _ hs' => cases (hs.unique hs').2
    | more _ hs' _ hd =>
      obtain ⟨-, ⟨⟩⟩ := hs.unique hs'
      exact ih hd hb

/-- Where reading a program fails, what is in front can be completed to one; and unless the failure is
marked, nothing can be that goes on as the lexemes do. -/
theorem StuckProgram.resumes {b : Bool} {ls rest : List Lexeme} (h : StuckProgram b ls rest) :
    ∃ front, ls = front ++ rest ∧
      (b = true → ∀ rest', rest'.head? = rest.head? → StuckProgram true (front ++ rest') rest') ∧
      ∃ more p, DerivesProgram (front ++ more) p := by
  induction h with
  | @empty _ l _ _ hl _ ih =>
    obtain ⟨front, rfl, hagain, more, p, hmore⟩ := ih
    exact ⟨l :: front, rfl, fun hb rest' h => .empty hl (hagain hb rest' h),
      more, _, .empty hl hmore⟩
  | statement hends h =>
    obtain ⟨front, rfl, hagain, more, s, hmore⟩ := h.resumes
    refine ⟨front, rfl, fun hb rest' h => .statement (fun h' => hends ?_) (hagain hb rest' h),
      more, _, .last hmore.not_ends hmore⟩
    exact (ends_congr (head?_append_congr h)).mp h'
  -- the statement in front is a program on its own
  | separator hends hs hrest =>
    obtain ⟨front, rfl, hne, hagain, s', hs'⟩ := hs.detach
    refine ⟨front, rfl, fun _ rest' h => ?_, [], [s'], ?_⟩
    · refine .separator (fun h' => hends ?_) (hagain rest' h) (fun h' => hrest ((ends_congr h).mp h'))
      exact (ends_congr (head?_append_congr h)).mp h'
    · rw [List.append_nil]
      exact .last hs'.not_ends hs'
  -- the separator behind the statement is what its reader looked at, so it is read again
  | @more _ _ s l _ _ hends hs hl _ ih =>
    obtain ⟨before, rfl, hne, hs, -⟩ := hs.detach
    obtain ⟨front, rfl, hagain, more, p, hmore⟩ := ih
    have hends' : ∀ rest', ¬Ends (before ++ rest') :=
      fun rest' h => hends ((ends_congr (head?_append_of_ne hne _ _)).mp h)
    refine ⟨before ++ l :: front, by simp, fun hb rest' h => ?_, more, s :: p, ?_⟩
    · have := StuckProgram.more (hends' _) (hs (l :: (front ++ rest')) rfl) hl (hagain hb rest' h)
      simpa using this
    · have := DerivesProgram.more (hends' _) (hs (l :: (front ++ more)) rfl) hl hmore
      simpa using this

/-! ### Positions -/

/-- Every token is behind those in front of it. -/
def Increasing (ts : List Token) : Prop := ts.Pairwise fun t u => t.pos < u.pos

/-- The parser reads some tokens as a program. -/
def Readable (ts : List Token) : Prop :=
  ∃ stop p, (parseTokens stop none ts).outcome = .ok p

theorem readable_iff {ts : List Token} : Readable ts ↔ ∃ p, DerivesProgram (lexemesOf ts) p := by
  simp only [Readable, parseTokens_none, program_ok_iff, exists_const]

theorem le_pos_of_mem_tokensAt {offset : Nat} {ls : List Lexeme} {t : Token}
    (h : t ∈ tokensAt offset ls) : offset ≤ t.pos := by
  induction ls generalizing offset with
  | nil => cases h
  | cons l ls ih =>
    obtain rfl | h := List.mem_cons.mp h
    · exact Nat.le_refl _
    · have := ih h
      omega

theorem increasing_tokensAt (offset : Nat) (ls : List Lexeme) : Increasing (tokensAt offset ls) := by
  induction ls generalizing offset with
  | nil => exact .nil
  | cons l ls ih => exact .cons (fun t ht => le_pos_of_mem_tokensAt ht) (ih (offset + 1))

/-- A program ends behind all its tokens. -/
theorem Increasing.pos_lt_endOfTokens {ts : List Token} (h : Increasing ts) :
    ∀ t ∈ ts, t.pos < endOfTokens ts := by
  intro t ht
  obtain ⟨front, last, rfl⟩ : ∃ front last, ts = front ++ [last] :=
    ⟨_, _, (List.dropLast_concat_getLast (List.ne_nil_of_mem ht)).symm⟩
  rw [endOfTokens, List.getLast?_concat]
  obtain ht | ht := List.mem_append.mp ht
  · have := (List.pairwise_append.mp h).2.2 t ht last (List.mem_singleton_self _)
    show t.pos < last.pos + 1
    omega
  · rw [List.mem_singleton.mp ht]
    exact Nat.lt_succ_self _

/-! ### Errors -/

/-- The failures of the parser, over rows of lexemes: the lexemes in front begin a program, and with the
next one they begin none, unless the error is about an array target without names. -/
theorem program_error_sited {stop : Nat} {ts : List Token} {e : ParseError}
    (hlists : NoLists (lexemesOf ts)) (h : program stop ts = .error e) :
    ∃ front rest, ts = front ++ rest ∧ e.position = some (offsetOf stop rest) ∧
      (∃ more p, DerivesProgram (lexemesOf front ++ more) p) ∧
      (e.fault ≠ .noNames → ∀ rest' p, rest'.head? = (lexemesOf rest).head? →
        ¬DerivesProgram (lexemesOf front ++ rest') p) := by
  obtain ⟨b, hb, rest, ⟨front, rfl⟩, hstuck, hpos⟩ := program_failsAt hlists h
  obtain ⟨before, hbefore, hagain, hmore⟩ := hstuck.resumes
  rw [lexemesOf, List.map_append] at hbefore
  obtain rfl := List.append_cancel_right hbefore
  refine ⟨front, rest, rfl, hpos, hmore, fun hfault rest' p hrest' => ?_⟩
  cases b with
  | true => exact (hagain rfl rest' hrest').not_derives
  | false => exact absurd (hb rfl) hfault

/-- An error of the parser points at the first token that cannot be continued, or behind the last one:
the tokens in front of it begin an accepted program, and together with it they begin none, unless the
error is about an array target without names. -/
theorem parseTokens_error_earliest {stop : Nat} {ts : List Token} {e : ParseError}
    (hts : Increasing ts) (hstop : endOfTokens ts ≤ stop) (hlists : NoLists (lexemesOf ts))
    (h : (parseTokens stop none ts).outcome = .error e) :
    ∃ front rest, ts = front ++ rest ∧ e.position = some (offsetOf stop rest) ∧
      (∀ t ∈ front, t.pos < offsetOf stop rest) ∧ (∀ t ∈ rest, offsetOf stop rest ≤ t.pos) ∧
      (∃ more, Increasing (front ++ more) ∧ Readable (front ++ more)) ∧
      (e.fault ≠ .noNames → ¬Readable ts ∧
        ∀ t tail, rest = t :: tail → ∀ more, ¬Readable (front ++ t :: more)) := by
  rw [parseTokens_none] at h
  obtain ⟨front, rest, rfl, hpos, ⟨more, p, hmore⟩, hnone⟩ := program_error_sited hlists h
  have hfront : ∀ t ∈ front, t.pos < stop := fun t ht =>
    Nat.lt_of_lt_of_le (hts.pos_lt_endOfTokens t (List.mem_append_left _ ht)) hstop
  obtain ⟨hincreasing, hrest, hcross⟩ := List.pairwise_append.mp hts
  -- tokens are told apart by their offsets, derivations only see lexemes
  refine ⟨front, rest, rfl, hpos, ?_, ?_, ⟨tokensAt stop more, ?_, ?_⟩, fun hfault => ⟨?_, ?_⟩⟩
  · cases rest with
    | nil => exact hfront
    | cons u rest => exact fun t ht => hcross t ht u List.mem_cons_self
  · cases rest with
    | nil => exact List.forall_mem_nil _
    | cons u rest =>
      refine List.forall_mem_cons.mpr ⟨Nat.le_refl _, fun t ht => ?_⟩
      exact Nat.le_of_lt (List.rel_of_pairwise_cons hrest ht)
  · refine List.pairwise_append.mpr ⟨hincreasing, increasing_tokensAt _ _, fun t ht u hu => ?_⟩
    exact Nat.lt_of_lt_of_le (hfront t ht) (le_pos_of_mem_tokensAt hu)
  · refine readable_iff.mpr ⟨p, ?_⟩
    rwa [lexemesOf, List.map_append, ← lexemesOf, ← lexemesOf, lexemesOf_tokensAt]
  · rw [readable_iff]
    rintro ⟨p, hp⟩
    rw [lexemesOf, List.map_append] at hp
    exact hnone hfault _ p rfl hp
  · rintro t tail rfl more
    rw [readable_iff]
    rintro ⟨p, hp⟩
    rw [lexemesOf, List.map_append] at hp
    exact hnone hfault (lexemesOf (t :: more)) p rfl hp

/-- A bracket that is closed by one of the other kind. -/
theorem bracketed_name_error_earliest :
    let ts : List Token := [⟨.lparen, 0⟩, ⟨.variable "n", 1⟩, ⟨.rbracket, 2⟩]
    let e : ParseError := ⟨.expected .closingParen (some .rbracket) (some 0), some 2⟩
    (Increasing ts ∧ endOfTokens ts ≤ 3 ∧ NoLists (lexemesOf ts) ∧
      (parseTokens 3 none ts).outcome = .error e) ∧
    ∃ front rest, ts = front ++ rest ∧ e.position = some (offsetOf 3 rest) ∧
      (∀ t ∈ front, t.pos < offsetOf 3 rest) ∧ (∀ t ∈ rest, offsetOf 3 rest ≤ t.pos) ∧
      (∃ more, Increasing (front ++ more) ∧ Readable (front ++ more)) ∧
      (e.fault ≠ .noNames → ¬Readable ts ∧
        ∀ t tail, rest = t :: tail → ∀ more, ¬Readable (front ++ t :: more)) := by
  intro ts e
  have hts : Increasing ts := by simp [ts, Increasing]
  have hstop : endOfTokens ts ≤ 3 := by decide
  have hlists : NoLists (lexemesOf ts) := by
    intro before after heq
    have : Lexeme.assign .plain ∈ lexemesOf ts := by rw [heq]; simp
    simp [ts] at this
  have herror : (parseTokens 3 none ts).outcome = .error e := by
    rw [parseTokens_none]
    simp [ts, e, program, statement, expr, operand, operators, failAt, front, bind, Except.bind]
    rfl
  exact ⟨⟨hts, hstop, hlists, herror⟩, parseTokens_error_earliest hts hstop hlists herror⟩

end FieldLang
