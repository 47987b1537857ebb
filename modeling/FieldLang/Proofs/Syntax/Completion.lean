/-
Completions of what has been read.

* `Derives.detach` : what a phrase takes depends on the lexemes taken and on the first one behind them;
* `Stuck.not_derives` : where reading fails, the rules derive nothing;
* `Stuck.resumes` : what is in front of a failure can be completed to a phrase, and whatever goes on with
  the same lexeme fails there too.

Design notes: a reader looks at one lexeme behind what it takes. So a part that was read stays read in
front of others if they begin with the same lexeme, and it does too if they close all that it might go
on to (`Closes`): the first way says that a failure stays one, the second one how to complete a phrase.
-/
import FieldLang.Proofs.Syntax.Stuck

namespace FieldLang

/-! ### One lexeme behind -/

/-- Lexemes that look like others to what is in front of them, or close it. -/
def Detaches (rest rest' : List Lexeme) : Prop := rest'.head? = rest.head? ∨ Closes rest'

theorem closes_end : Closes [] := ⟨⟨nofun, nofun⟩, nofun⟩

theorem head?_append_congr {front rest rest' : List Lexeme} (h : rest'.head? = rest.head?) :
    (front ++ rest').head? = (front ++ rest).head? := by
  cases front with
  | nil => exact h
  | cons l front => rfl

theorem head?_append_of_ne {front : List Lexeme} (h : front ≠ []) (rest rest' : List Lexeme) :
    (front ++ rest').head? = (front ++ rest).head? := by
  cases front with
  | nil => exact absurd rfl h
  | cons l front => rfl

section Detaches

variable {front rest rest' : List Lexeme}

theorem detaches_cons (l : Lexeme) : Detaches (l :: rest) (l :: rest') := .inl rfl

theorem Detaches.append (h : Detaches rest rest') : Detaches (front ++ rest) (front ++ rest') := by
  cases front with
  | nil => exact h
  | cons l front => exact .inl rfl

theorem Detaches.stops {least : Nat} (h : Detaches rest rest') (hs : Stops least rest) :
    Stops least rest' := by
  obtain h | h := h
  · exact ⟨fun hq => hs.question (h ▸ hq), fun op hop => hs.operator op (h ▸ hop)⟩
  · exact h.stops.mono (Nat.zero_le _)

theorem Detaches.step (h : Detaches rest rest') (hs : ∀ op, rest.head? ≠ some (.step op)) (op : StepOp) :
    rest'.head? ≠ some (.step op) := by
  obtain h | h := h
  · rw [h]
    exact hs op
  · exact h.step op

end Detaches

/-- A phrase that takes at least one lexeme. -/
def Phrase.Starts : Phrase → Prop
  | .operators _ _ => False
  | _ => True

/-- What a phrase takes from the front of some lexemes it takes as well in front of any others that
look like those, or that close the phrase. -/
theorem Derives.detach {p : Phrase} {ls rest : List Lexeme} {es : List Expr}
    (h : Derives p ls es rest) : ∃ front, ls = front ++ rest ∧ (p.Starts → front ≠ []) ∧
      ∀ rest', Detaches rest rest' → Derives p (front ++ rest') es rest' := by
  -- only a name and the end of the operators look at what stands behind; the other rules hand it on
  -- to their last part
  induction h with
  | expr _ _ ihFirst ihWhole =>
    obtain ⟨before, rfl, hne, hfirst⟩ := ihFirst
    obtain ⟨front, rfl, -, hwhole⟩ := ihWhole
    refine ⟨before ++ front, by simp, fun _ => by simp [hne trivial], fun rest' h => ?_⟩
    rw [List.append_assoc]
    exact .expr (hfirst _ h.append) (hwhole _ h)
  | @number value _ => exact ⟨[.number value], rfl, nofun, fun _ _ => .number⟩
  | @step name op _ => exact ⟨[.variable name, .step op], rfl, nofun, fun _ _ => .step⟩
  | @name name _ hstep => exact ⟨[.variable name], rfl, nofun, fun _ h => .name (h.step hstep)⟩
  | @call f _ _ _ _ ih =>
    obtain ⟨front, rfl, -, hargs⟩ := ih
    exact ⟨.function f :: .lparen :: front, rfl, nofun, fun rest' h => .call (hargs rest' h)⟩
  | parens _ ih =>
    obtain ⟨front, rfl, -, hinner⟩ := ih
    refine ⟨.lparen :: (front ++ [.rparen]), by simp, nofun, fun rest' _ => ?_⟩
    have := Derives.parens (hinner (.rparen :: rest') (detaches_cons _))
    simpa using this
  | minus _ ih =>
    obtain ⟨front, rfl, -, hinner⟩ := ih
    exact ⟨.operator .sub :: front, rfl, nofun, fun rest' h => .minus (hinner rest' h)⟩
  | plus _ ih =>
    obtain ⟨front, rfl, -, hinner⟩ := ih
    exact ⟨.operator .add :: front, rfl, nofun, fun rest' h => .plus (hinner rest' h)⟩
  | stop hstops => exact ⟨[], rfl, nofun, fun rest' h => .stop (h.stops hstops)⟩
  | conditional hleast _ _ _ ihTrue ihFalse ihWhole =>
    obtain ⟨ts, rfl, -, htrue⟩ := ihTrue
    obtain ⟨fs, rfl, -, hfalse⟩ := ihFalse
    obtain ⟨front, rfl, -, hwhole⟩ := ihWhole
    refine ⟨.question :: (ts ++ .colon :: (fs ++ front)), by simp, nofun, fun rest' h => ?_⟩
    have := Derives.conditional hleast (htrue _ (detaches_cons _)) (hfalse _ h.append) (hwhole _ h)
    simpa using this
  | @binary _ _ op _ _ _ _ _ hleast _ _ ihRhs ihWhole =>
    obtain ⟨bs, rfl, -, hrhs⟩ := ihRhs
    obtain ⟨front, rfl, -, hwhole⟩ := ihWhole
    refine ⟨.operator op :: (bs ++ front), by simp, nofun, fun rest' h => ?_⟩
    have := Derives.binary hleast (hrhs _ h.append) (hwhole _ h)
    simpa using this
  | bracketed _ ih =>
    obtain ⟨front, rfl, -, hitems⟩ := ih
    exact ⟨.lbracket :: front, rfl, nofun, fun rest' h => .bracketed (hitems rest' h)⟩
  | single hfront _ ih =>
    obtain ⟨front, rfl, hne, hinner⟩ := ih
    refine ⟨front, rfl, hne, fun rest' h => .single ?_ (hinner rest' h)⟩
    rwa [head?_append_of_ne (hne trivial)]
  | noArguments => exact ⟨[.rparen], rfl, nofun, fun _ _ => .noArguments⟩
  -- the bracket that closes a row is taken with it, so anything may stand behind
  | lastArgument hfront _ ih =>
    obtain ⟨front, rfl, hne, hfirst⟩ := ih
    refine ⟨front ++ [.rparen], by simp, fun _ => by simp, fun rest' _ => ?_⟩
    rw [List.append_assoc]
    refine .lastArgument ?_ (hfirst _ (detaches_cons _))
    rwa [head?_append_of_ne (hne trivial)]
  | moreArguments hfront _ _ ihFirst ihMore =>
    obtain ⟨front, rfl, hne, hfirst⟩ := ihFirst
    obtain ⟨more, rfl, -, hmore⟩ := ihMore
    refine ⟨front ++ .comma :: more, by simp, fun _ => by simp, fun rest' h => ?_⟩
    rw [List.append_assoc]
    refine .moreArguments ?_ (hfirst _ (detaches_cons _)) (hmore rest' h)
    rwa [head?_append_of_ne (hne trivial)]
  | noItems => exact ⟨[.rbracket], rfl, nofun, fun _ _ => .noItems⟩
  | lastItem hfront _ ih =>
    obtain ⟨front, rfl, hne, hfirst⟩ := ih
    refine ⟨front ++ [.rbracket], by simp, fun _ => by simp, fun rest' _ => ?_⟩
    rw [List.append_assoc]
    refine .lastItem ?_ (hfirst _ (detaches_cons _))
    rwa [head?_append_of_ne (hne trivial)]
  | moreItems hfront _ _ ihFirst ihMore =>
    obtain ⟨front, rfl, hne, hfirst⟩ := ihFirst
    obtain ⟨more, rfl, -, hmore⟩ := ihMore
    refine ⟨front ++ .comma :: more, by simp, fun _ => by simp, fun rest' h => ?_⟩
    rw [List.append_assoc]
    refine .moreItems ?_ (hfirst _ (detaches_cons _)) (hmore rest' h)
    rwa [head?_append_of_ne (hne trivial)]

/-! ### What is read is determined -/

theorem Accepts.unique {stop : Nat} {p : Phrase} {ts after after' : List Token} {es es' : List Expr}
    (h : Accepts stop p ts es after) (h' : Accepts stop p ts es' after') :
    es = es' ∧ after = after' := by
  cases p with
  | arguments | items =>
    obtain ⟨_, h⟩ := h 0
    obtain ⟨_, h'⟩ := h' 0
    cases h.symm.trans h'
    exact ⟨rfl, rfl⟩
  | argument =>
    obtain ⟨_, h⟩ := h
    obtain ⟨_, h'⟩ := h'
    cases h.symm.trans h'
    exact ⟨rfl, rfl⟩
  | expr | operand | operators =>
    obtain ⟨_, _, rfl, h⟩ := h
    obtain ⟨_, _, rfl, h'⟩ := h'
    cases h.symm.trans h'
    exact ⟨rfl, rfl⟩

/-- Tokens with given lexemes, one at each offset from a given one on. -/
def tokensAt (offset : Nat) : List Lexeme → List Token
  | [] => []
  | l :: ls => ⟨l, offset⟩ :: tokensAt (offset + 1) ls

theorem lexemesOf_tokensAt (offset : Nat) (ls : List Lexeme) : lexemesOf (tokensAt offset ls) = ls := by
  induction ls generalizing offset with
  | nil => rfl
  | cons l ls ih => exact congrArg (l :: ·) (ih (offset + 1))

theorem Derives.unique {p : Phrase} {ls rest rest' : List Lexeme} {es es' : List Expr}
    (h : Derives p ls es rest) (h' : Derives p ls es' rest') : es = es' ∧ rest = rest' := by
  obtain ⟨after, hafter, hread⟩ := h.accepts 0 _ (lexemesOf_tokensAt 0 ls)
  obtain ⟨after', hafter', hread'⟩ := h'.accepts 0 _ (lexemesOf_tokensAt 0 ls)
  obtain ⟨hes, rfl⟩ := hread.unique hread'
  exact ⟨hes, hafter.symm.trans hafter'⟩

section Parts

variable {least : Nat} {lhs : Expr} {ls rest : List Lexeme} {es : List Expr}

/-- The parts of a conditional, if the question mark binds tightly enough. -/
theorem Derives.of_question (h : Derives (.operators least lhs) (.question :: ls) es rest)
    (hleast : least ≤ conditionPower) :
    ∃ ifTrue mid ifFalse mid', Derives (.expr 0) ls [ifTrue] (.colon :: mid) ∧
      Derives (.expr branchPower) mid [ifFalse] mid' ∧
      Derives (.operators least (.conditional lhs ifTrue ifFalse)) mid' es rest := by
  cases h with
  | stop hstops => exact absurd (hstops.question rfl) (by omega)
  | conditional _ htrue hfalse hwhole => exact ⟨_, _, _, _, htrue, hfalse, hwhole⟩

/-- The right side of an operator, if that binds tightly enough, and what follows. -/
theorem Derives.of_operator {op : BinOp}
    (h : Derives (.operators least lhs) (.operator op :: ls) es rest) (hleast : least ≤ op.leftPower) :
    ∃ rhs mid, Derives (.expr op.rightPower) ls [rhs] mid ∧
      Derives (.operators least (.binary op lhs rhs)) mid es rest := by
  cases h with
  | stop hstops => exact absurd (hstops.operator _ rfl) (by omega)
  | binary _ hrhs hwhole => exact ⟨_, _, hrhs, hwhole⟩

/-- The first argument of a call that has any, and what stands behind it. -/
theorem Derives.first_argument (h : Derives .arguments ls es rest) (hfront : ls.head? ≠ some .rparen) :
    ∃ fs mid, Derives .argument ls fs mid ∧ (mid = .rparen :: rest ∨
      ∃ more gs, mid = .comma :: more ∧ Derives .arguments more gs rest) := by
  cases h with
  | noArguments => exact absurd rfl hfront
  | lastArgument _ hfirst => exact ⟨_, _, hfirst, .inl rfl⟩
  | moreArguments _ hfirst hmore => exact ⟨_, _, hfirst, .inr ⟨_, _, rfl, hmore⟩⟩

/-- The first item of a list that has any, and what stands behind it. -/
theorem Derives.first_item (h : Derives .items ls es rest) (hfront : ls.head? ≠ some .rbracket) :
    ∃ e mid, Derives (.expr 0) ls [e] mid ∧ (mid = .rbracket :: rest ∨
      ∃ more gs, mid = .comma :: more ∧ Derives .items more gs rest) := by
  cases h with
  | noItems => exact absurd rfl hfront
  | lastItem _ hfirst => exact ⟨_, _, hfirst, .inl rfl⟩
  | moreItems _ hfirst hmore => exact ⟨_, _, hfirst, .inr ⟨_, _, rfl, hmore⟩⟩

end Parts

/-- Where reading fails, the rules derive nothing. -/
theorem Stuck.not_derives {p : Phrase} {ls rest : List Lexeme} (h : Stuck p ls rest) :
    ∀ {es rest'}, ¬Derives p ls es rest' := by
  -- the rules that may derive anything from the lexemes are those whose parts were read before
  induction h with
  | operand _ ih =>
    rintro _ _ ⟨hfirst, -⟩
    exact ih hfirst
  | operators hfirst _ ih =>
    rintro _ _ ⟨hfirst', hwhole⟩
    obtain ⟨⟨⟩, rfl⟩ := hfirst.unique hfirst'
    exact ih hwhole
  | unexpected hopens =>
    intro _ _ hd
    cases hd <;> exact hopens _ rfl trivial
  | uncalled hfront =>
    rintro _ _ ⟨⟩
    exact hfront rfl
  | call _ ih =>
    rintro _ _ ⟨⟩
    exact ih ‹_›
  | parens _ ih =>
    rintro _ _ ⟨⟩
    exact ih ‹_›
  | unclosed hinner hfront =>
    rintro _ _ ⟨⟩
    next hinner' =>
    obtain ⟨-, rfl⟩ := hinner.unique hinner'
    exact hfront rfl
  | minus _ ih =>
    rintro _ _ ⟨⟩
    exact ih ‹_›
  | plus _ ih =>
    rintro _ _ ⟨⟩
    exact ih ‹_›
  | ifTrue hleast _ ih =>
    intro _ _ hd
    obtain ⟨_, _, _, _, htrue, -⟩ := hd.of_question hleast
    exact ih htrue
  | colon hleast htrue hfront =>
    intro _ _ hd
    obtain ⟨_, _, _, _, htrue', -⟩ := hd.of_question hleast
    obtain ⟨-, rfl⟩ := htrue.unique htrue'
    exact hfront rfl
  | ifFalse hleast htrue _ ih =>
    intro _ _ hd
    obtain ⟨_, _, _, _, htrue', hfalse, -⟩ := hd.of_question hleast
    obtain ⟨-, ⟨⟩⟩ := htrue.unique htrue'
    exact ih hfalse
  | conditional hleast htrue hfalse _ ih =>
    intro _ _ hd
    obtain ⟨_, _, _, _, htrue', hfalse', hwhole⟩ := hd.of_question hleast
    obtain ⟨⟨⟩, ⟨⟩⟩ := htrue.unique htrue'
    obtain ⟨⟨⟩, rfl⟩ := hfalse.unique hfalse'
    exact ih hwhole
  | right hleast _ ih =>
    intro _ _ hd
    obtain ⟨_, _, hrhs, -⟩ := hd.of_operator hleast
    exact ih hrhs
  | binary hleast hrhs _ ih =>
    intro _ _ hd
    obtain ⟨_, _, hrhs', hwhole⟩ := hd.of_operator hleast
    obtain ⟨⟨⟩, rfl⟩ := hrhs.unique hrhs'
    exact ih hwhole
  | bracketed _ ih =>
    intro _ _ hd
    cases hd with
    | bracketed hitems => exact ih hitems
    | single hfront => exact hfront rfl
  | single hfront _ ih =>
    intro _ _ hd
    cases hd with
    | bracketed => exact hfront rfl
    | single _ hinner => exact ih hinner
  | firstArgument hfront _ ih =>
    intro _ _ hd
    obtain ⟨_, _, hfirst, -⟩ := hd.first_argument hfront
    exact ih hfirst
  | unclosedArguments hfront hfirst hcomma hparen =>
    intro _ _ hd
    obtain ⟨_, _, hfirst', hbehind⟩ := hd.first_argument hfront
    obtain ⟨-, rfl⟩ := hfirst.unique hfirst'
    obtain rfl | ⟨_, _, rfl, -⟩ := hbehind
    · exact hparen rfl
    · exact hcomma rfl
  | moreArguments hfront hfirst _ ih =>
    intro _ _ hd
    obtain ⟨_, _, hfirst', hbehind⟩ := hd.first_argument hfront
    obtain ⟨-, rfl⟩ := hfirst.unique hfirst'
    obtain ⟨⟨⟩⟩ | ⟨_, _, ⟨⟩, hmore⟩ := hbehind
    exact ih hmore
  | firstItem hfront _ ih =>
    intro _ _ hd
    obtain ⟨_, _, hfirst, -⟩ := hd.first_item hfront
    exact ih hfirst
  | unclosedItems hfront hfirst hcomma hbracket =>
    intro _ _ hd
    obtain ⟨_, _, hfirst', hbehind⟩ := hd.first_item hfront
    obtain ⟨-, rfl⟩ := hfirst.unique hfirst'
    obtain rfl | ⟨_, _, rfl, -⟩ := hbehind
    · exact hbracket rfl
    · exact hcomma rfl
  | moreItems hfront hfirst _ ih =>
    intro _ _ hd
    obtain ⟨_, _, hfirst', hbehind⟩ := hd.first_item hfront
    obtain ⟨-, rfl⟩ := hfirst.unique hfirst'
    obtain ⟨⟨⟩⟩ | ⟨_, _, ⟨⟩, hmore⟩ := hbehind
    exact ih hmore

/-! ### Completions of expressions -/

/-- Some lexemes in front can be completed to a phrase, whatever closes it from behind. -/
def Completes (p : Phrase) (front : List Lexeme) : Prop :=
  ∃ more es, ∀ rest, Closes rest → Derives p (front ++ (more ++ rest)) es rest

/-- How reading stands at a failure: what is in front can be completed, and what goes on with the same
lexeme fails there too. -/
structure Resumes (p : Phrase) (front rest : List Lexeme) : Prop where
  takes : ¬p.Starts → front ≠ []
  again : ∀ rest', rest'.head? = rest.head? → Stuck p (front ++ rest') rest'
  completes : Completes p front

theorem closes_rparen (rest : List Lexeme) : Closes (.rparen :: rest) := ⟨⟨nofun, nofun⟩, nofun⟩

theorem closes_rbracket (rest : List Lexeme) : Closes (.rbracket :: rest) := ⟨⟨nofun, nofun⟩, nofun⟩

theorem closes_colon (rest : List Lexeme) : Closes (.colon :: rest) := ⟨⟨nofun, nofun⟩, nofun⟩

theorem Closes.operators {least : Nat} {e : Expr} {rest : List Lexeme} (h : Closes rest) :
    Derives (.operators least e) rest [e] rest := .stop (h.stops.mono (Nat.zero_le _))

theorem Closes.number {least : Nat} {value : Float} {rest : List Lexeme} (h : Closes rest) :
    Derives (.expr least) (.number value :: rest) [.number value] rest := .expr .number h.operators

theorem Derives.operand_single {ls rest : List Lexeme} {es : List Expr}
    (h : Derives .operand ls es rest) : ∃ e, es = [e] := by
  cases h <;> exact ⟨_, rfl⟩

theorem Derives.expr_single {least : Nat} {ls rest : List Lexeme} {es : List Expr}
    (h : Derives (.expr least) ls es rest) : ∃ e, es = [e] := by
  cases h
  exact ⟨_, rfl⟩

theorem Derives.operators_single {least : Nat} {lhs : Expr} {ls rest : List Lexeme} {es : List Expr}
    (h : Derives (.operators least lhs) ls es rest) : ∃ e, es = [e] := by
  cases h <;> exact ⟨_, rfl⟩

section Single

variable {front : List Lexeme}

theorem Completes.operand (h : Completes .operand front) :
    ∃ more e, ∀ rest, Closes rest → Derives .operand (front ++ (more ++ rest)) [e] rest := by
  obtain ⟨more, es, hmore⟩ := h
  obtain ⟨e, rfl⟩ := (hmore [] closes_end).operand_single
  exact ⟨more, e, hmore⟩

theorem Completes.expr {least : Nat} (h : Completes (.expr least) front) :
    ∃ more e, ∀ rest, Closes rest → Derives (.expr least) (front ++ (more ++ rest)) [e] rest := by
  obtain ⟨more, es, hmore⟩ := h
  obtain ⟨e, rfl⟩ := (hmore [] closes_end).expr_single
  exact ⟨more, e, hmore⟩

theorem Completes.operators {least : Nat} {lhs : Expr} (h : Completes (.operators least lhs) front) :
    ∃ more e, ∀ rest, Closes rest →
      Derives (.operators least lhs) (front ++ (more ++ rest)) [e] rest := by
  obtain ⟨more, es, hmore⟩ := h
  obtain ⟨e, rfl⟩ := (hmore [] closes_end).operators_single
  exact ⟨more, e, hmore⟩

end Single

/-- An expression begins with a lexeme that opens one. -/
theorem Derives.head?_expr_ne {least : Nat} {ls rest : List Lexeme} {es : List Expr}
    (h : Derives (.expr least) ls es rest) {l : Lexeme} (hl : ¬l.Opens) : ls.head? ≠ some l := by
  obtain ⟨hfirst, -⟩ := h
  rintro hhead
  cases hfirst <;> (cases hhead; exact hl trivial)

theorem Derives.head?_argument_ne {ls rest : List Lexeme} {es : List Expr}
    (h : Derives .argument ls es rest) : ls.head? ≠ some .rparen := by
  cases h with
  | bracketed => nofun
  | single _ h => exact h.head?_expr_ne id

/-- Where reading a phrase fails, what is in front can be completed to one; and nothing can be that goes
on as the lexemes do. -/
theorem Stuck.resumes {p : Phrase} {ls rest : List Lexeme} (h : Stuck p ls rest) :
    ∃ front, ls = front ++ rest ∧ Resumes p front rest := by
  -- parts that were read are read again in front of other lexemes; the part that fails resumes
  induction h with
  | operand _ ih =>
    obtain ⟨front, rfl, hr⟩ := ih
    obtain ⟨more, e, hmore⟩ := hr.completes.operand
    exact ⟨front, rfl, (absurd trivial ·), fun rest' h => .operand (hr.again rest' h),
      more, [e], fun rest' h => .expr (hmore rest' h) h.operators⟩
  | operators hfirst _ ih =>
    obtain ⟨before, rfl, -, hfirst⟩ := hfirst.detach
    obtain ⟨front, rfl, hr⟩ := ih
    obtain ⟨more, e, hmore⟩ := hr.completes.operators
    refine ⟨before ++ front, by simp, (absurd trivial ·), fun rest' h => ?_, more, [e], fun rest' h => ?_⟩
    · rw [List.append_assoc]
      exact .operators (hfirst _ (.append (.inl h))) (hr.again rest' h)
    · rw [List.append_assoc]
      exact .expr (hfirst _ (.inl (head?_append_of_ne (hr.takes id) _ _))) (hmore rest' h)
  -- any number will do for an operand that is missing
  | unexpected hopens =>
    refine ⟨[], rfl, (absurd trivial ·), fun rest' h => .unexpected fun l hl => hopens l (h ▸ hl), ?_⟩
    exact ⟨[.number 0], _, fun _ _ => .number⟩
  | @uncalled f _ hfront =>
    refine ⟨[.function f], rfl, nofun, fun rest' h => .uncalled (h ▸ hfront), ?_⟩
    exact ⟨[.lparen, .rparen], _, fun _ _ => .call .noArguments⟩
  | @call f _ _ _ ih =>
    obtain ⟨front, rfl, hr⟩ := ih
    obtain ⟨more, es, hmore⟩ := hr.completes
    exact ⟨.function f :: .lparen :: front, rfl, nofun, fun rest' h => .call (hr.again rest' h),
      more, [.call f es], fun rest' h => .call (hmore rest' h)⟩
  | parens _ ih =>
    obtain ⟨front, rfl, hr⟩ := ih
    obtain ⟨more, e, hmore⟩ := hr.completes.expr
    refine ⟨.lparen :: front, rfl, nofun, fun rest' h => .parens (hr.again rest' h),
      more ++ [.rparen], [e], fun rest' h => ?_⟩
    have := Derives.parens (hmore (.rparen :: rest') (closes_rparen _))
    simpa using this
  | @unclosed _ e _ hinner hfront =>
    obtain ⟨front, rfl, -, hinner⟩ := hinner.detach
    exact ⟨.lparen :: front, rfl, nofun,
      fun rest' h => .unclosed (hinner rest' (.inl h)) (h ▸ hfront),
      [.rparen], [e], fun rest' _ => .parens (hinner _ (.inr (closes_rparen _)))⟩
  | minus _ ih =>
    obtain ⟨front, rfl, hr⟩ := ih
    obtain ⟨more, e, hmore⟩ := hr.completes.expr
    exact ⟨.operator .sub :: front, rfl, nofun, fun rest' h => .minus (hr.again rest' h),
      more, [.negate e], fun rest' h => .minus (hmore rest' h)⟩
  | plus _ ih =>
    obtain ⟨front, rfl, hr⟩ := ih
    obtain ⟨more, e, hmore⟩ := hr.completes.expr
    exact ⟨.operator .add :: front, rfl, nofun, fun rest' h => .plus (hr.again rest' h),
      more, [e], fun rest' h => .plus (hmore rest' h)⟩
  | @ifTrue least lhs _ _ hleast _ ih =>
    obtain ⟨front, rfl, hr⟩ := ih
    obtain ⟨more, e, hmore⟩ := hr.completes.expr
    refine ⟨.question :: front, rfl, nofun, fun rest' h => .ifTrue hleast (hr.again rest' h),
      more ++ [.colon, .number 0], [.conditional lhs e (.number 0)], fun rest' h => ?_⟩
    have hmore := hmore (.colon :: .number 0 :: rest') (closes_colon _)
    have : Derives (.operators least lhs) _ [.conditional lhs e (.number 0)] rest' :=
      .conditional hleast hmore h.number h.operators
    simpa using this
  -- the first branch is read, so a colon and a number are missing
  | colon hleast htrue hfront =>
    obtain ⟨front, rfl, -, htrue⟩ := htrue.detach
    exact ⟨.question :: front, rfl, nofun,
      fun rest' h => .colon hleast (htrue rest' (.inl h)) (h ▸ hfront),
      [.colon, .number 0], _, fun rest' h =>
        .conditional hleast (htrue _ (.inr (closes_colon _))) h.number h.operators⟩
  | @ifFalse least lhs _ t _ _ hleast htrue _ ih =>
    obtain ⟨ts, rfl, -, htrue⟩ := htrue.detach
    obtain ⟨front, rfl, hr⟩ := ih
    obtain ⟨more, e, hmore⟩ := hr.completes.expr
    refine ⟨.question :: (ts ++ .colon :: front), by simp, nofun, fun rest' h => ?_,
      more, [.conditional lhs t e], fun rest' h => ?_⟩
    · have hstuck := hr.again rest' h
      have : Stuck (.operators least lhs) _ rest' := .ifFalse hleast (htrue _ (detaches_cons _)) hstuck
      simpa using this
    · have hmore := hmore rest' h
      have : Derives (.operators least lhs) _ [.conditional lhs t e] rest' :=
        .conditional hleast (htrue _ (detaches_cons _)) hmore h.operators
      simpa using this
  | conditional hleast htrue hfalse _ ih =>
    obtain ⟨ts, rfl, -, htrue⟩ := htrue.detach
    obtain ⟨fs, rfl, -, hfalse⟩ := hfalse.detach
    obtain ⟨front, rfl, hr⟩ := ih
    obtain ⟨more, e, hmore⟩ := hr.completes.operators
    refine ⟨.question :: (ts ++ .colon :: (fs ++ front)), by simp, nofun, fun rest' h => ?_,
      more, [e], fun rest' h => ?_⟩
    · have := Stuck.conditional hleast (htrue _ (detaches_cons _)) (hfalse _ (.append (.inl h)))
        (hr.again rest' h)
      simpa using this
    · have hfalse := hfalse _ (.inl (head?_append_of_ne (hr.takes id) _ (more ++ rest')))
      have := Derives.conditional hleast (htrue _ (detaches_cons _)) hfalse (hmore rest' h)
      simpa using this
  | @right _ _ op _ _ hleast _ ih =>
    obtain ⟨front, rfl, hr⟩ := ih
    obtain ⟨more, e, hmore⟩ := hr.completes.expr
    exact ⟨.operator op :: front, rfl, nofun, fun rest' h => .right hleast (hr.again rest' h),
      more, _, fun rest' h => .binary hleast (hmore rest' h) h.operators⟩
  | @binary _ _ op _ _ _ _ hleast hrhs _ ih =>
    obtain ⟨bs, rfl, -, hrhs⟩ := hrhs.detach
    obtain ⟨front, rfl, hr⟩ := ih
    obtain ⟨more, e, hmore⟩ := hr.completes.operators
    refine ⟨.operator op :: (bs ++ front), by simp, nofun, fun rest' h => ?_,
      more, [e], fun rest' h => ?_⟩
    · have := Stuck.binary hleast (hrhs _ (.append (.inl h))) (hr.again rest' h)
      simpa using this
    · have hrhs := hrhs _ (.inl (head?_append_of_ne (hr.takes id) _ (more ++ rest')))
      have := Derives.binary hleast hrhs (hmore rest' h)
      simpa using this
  | bracketed _ ih =>
    obtain ⟨front, rfl, hr⟩ := ih
    obtain ⟨more, es, hmore⟩ := hr.completes
    exact ⟨.lbracket :: front, rfl, nofun, fun rest' h => .bracketed (hr.again rest' h),
      more, es, fun rest' h => .bracketed (hmore rest' h)⟩
  | single hfront _ ih =>
    obtain ⟨front, rfl, hr⟩ := ih
    obtain ⟨more, e, hmore⟩ := hr.completes.expr
    refine ⟨front, rfl, (absurd trivial ·), fun rest' h => .single ?_ (hr.again rest' h),
      more, [e], fun rest' h => .single ((hmore rest' h).head?_expr_ne id) (hmore rest' h)⟩
    rwa [head?_append_congr h]
  | firstArgument hfront _ ih =>
    obtain ⟨front, rfl, hr⟩ := ih
    obtain ⟨more, es, hmore⟩ := hr.completes
    refine ⟨front, rfl, (absurd trivial ·), fun rest' h => .firstArgument ?_ (hr.again rest' h),
      more ++ [.rparen], es, fun rest' h => ?_⟩
    · rwa [head?_append_congr h]
    · have hfirst := hmore (.rparen :: rest') (closes_rparen _)
      have := Derives.lastArgument hfirst.head?_argument_ne hfirst
      simpa using this
  -- the row can be closed where something else stands
  | @unclosedArguments _ es _ hfront hfirst hcomma hparen =>
    obtain ⟨front, rfl, hne, hfirst⟩ := hfirst.detach
    refine ⟨front, rfl, (absurd trivial ·), fun rest' h => ?_, [.rparen], es, fun rest' _ => ?_⟩
    · refine .unclosedArguments ?_ (hfirst rest' (.inl h)) (h ▸ hcomma) (h ▸ hparen)
      rwa [head?_append_congr h]
    · have hfirst := hfirst (.rparen :: rest') (.inr (closes_rparen _))
      exact .lastArgument hfirst.head?_argument_ne hfirst
  | @moreArguments _ es _ _ hfront hfirst _ ih =>
    obtain ⟨before, rfl, hne, hfirst⟩ := hfirst.detach
    obtain ⟨front, rfl, hr⟩ := ih
    obtain ⟨more, fs, hmore⟩ := hr.completes
    have hfirst := fun rest' => hfirst (.comma :: rest') (detaches_cons _)
    refine ⟨before ++ .comma :: front, by simp, (absurd trivial ·), fun rest' h => ?_,
      more, es ++ fs, fun rest' h => ?_⟩
    · have := Stuck.moreArguments (hfirst _).head?_argument_ne (hfirst _) (hr.again rest' h)
      simpa using this
    · have := Derives.moreArguments (hfirst _).head?_argument_ne (hfirst _) (hmore rest' h)
      simpa using this
  | firstItem hfront _ ih =>
    obtain ⟨front, rfl, hr⟩ := ih
    obtain ⟨more, e, hmore⟩ := hr.completes.expr
    refine ⟨front, rfl, (absurd trivial ·), fun rest' h => .firstItem ?_ (hr.again rest' h),
      more ++ [.rbracket], [e], fun rest' h => ?_⟩
    · rwa [head?_append_congr h]
    · have hfirst := hmore (.rbracket :: rest') (closes_rbracket _)
      have := Derives.lastItem (hfirst.head?_expr_ne id) hfirst
      simpa using this
  | @unclosedItems _ e _ hfront hfirst hcomma hbracket =>
    obtain ⟨front, rfl, hne, hfirst⟩ := hfirst.detach
    refine ⟨front, rfl, (absurd trivial ·), fun rest' h => ?_, [.rbracket], [e], fun rest' _ => ?_⟩
    · refine .unclosedItems ?_ (hfirst rest' (.inl h)) (h ▸ hcomma) (h ▸ hbracket)
      rwa [head?_append_congr h]
    · have hfirst := hfirst (.rbracket :: rest') (.inr (closes_rbracket _))
      exact .lastItem (hfirst.head?_expr_ne id) hfirst
  | @moreItems _ e _ _ hfront hfirst _ ih =>
    obtain ⟨before, rfl, hne, hfirst⟩ := hfirst.detach
    obtain ⟨front, rfl, hr⟩ := ih
    obtain ⟨more, fs, hmore⟩ := hr.completes
    have hfirst := fun rest' => hfirst (.comma :: rest') (detaches_cons _)
    refine ⟨before ++ .comma :: front, by simp, (absurd trivial ·), fun rest' h => ?_,
      more, e :: fs, fun rest' h => ?_⟩
    · have := Stuck.moreItems ((hfirst _).head?_expr_ne id) (hfirst _) (hr.again rest' h)
      simpa using this
    · have := Derives.moreItems ((hfirst _).head?_expr_ne id) (hfirst _) (hmore rest' h)
      simpa using this

end FieldLang
