/-
The grammar of expressions.

The readers of the parser work on tokens with offsets and carry proofs about lengths. What they
read depends on neither, and is stated here as rules over rows of lexemes.

* `Phrase`, `Derives` : what can be read, and the rules;
* `Derives.accepts` : the readers read whatever the rules derive;
* `grounded` : and nothing else.

Design notes: there is one rule for every branch of a reader that succeeds, with the condition
under which the reader takes that branch. All rules are one relation, which reads rows of
expressions; a single expression is a row of one.
-/
import FieldLang.Proofs.Except
import FieldLang.Syntax.Parser

namespace FieldLang

/-- What can be read at some place of an expression. -/
inductive Phrase where
  | expr (least : Nat)
  | operand
  | operators (least : Nat) (lhs : Expr)
  | argument
  | arguments
  | items

/-- No operator stands in front that binds its left side at least as tightly as `least`. -/
structure Stops (least : Nat) (ls : List Lexeme) : Prop where
  question : ls.head? = some .question → conditionPower < least
  operator : ∀ op, ls.head? = some (.operator op) → op.leftPower < least

theorem BinOp.leftPower_lt_signPower (op : BinOp) : op.leftPower < signPower := by
  cases op <;> decide

/-- No operator binds into what stands behind a sign or needs no brackets. -/
theorem Stops.of_signPower_le {k : Nat} (hk : signPower ≤ k) (rest : List Lexeme) : Stops k rest :=
  ⟨fun _ => Nat.lt_of_lt_of_le (by decide) hk,
    fun op _ => Nat.lt_of_lt_of_le op.leftPower_lt_signPower hk⟩

theorem Stops.mono {k k' : Nat} {rest : List Lexeme} (h : Stops k rest) (hk : k ≤ k') :
    Stops k' rest :=
  ⟨fun hq => Nat.lt_of_lt_of_le (h.question hq) hk,
    fun op hop => Nat.lt_of_lt_of_le (h.operator op hop) hk⟩

/-- The expressions that are read from the front of some lexemes, and the lexemes behind them. -/
inductive Derives : Phrase → List Lexeme → List Expr → List Lexeme → Prop where
  | expr {least ls first mid whole rest} :
      Derives .operand ls [first] mid → Derives (.operators least first) mid [whole] rest →
      Derives (.expr least) ls [whole] rest
  | number {value ls} : Derives .operand (.number value :: ls) [.number value] ls
  | step {name op ls} : Derives .operand (.variable name :: .step op :: ls) [.step name op] ls
  | name {name ls} : (∀ op, ls.head? ≠ some (.step op)) →
      Derives .operand (.variable name :: ls) [.variable name] ls
  | call {f ls args rest} : Derives .arguments ls args rest →
      Derives .operand (.function f :: .lparen :: ls) [.call f args] rest
  | parens {ls e rest} : Derives (.expr 0) ls [e] (.rparen :: rest) →
      Derives .operand (.lparen :: ls) [e] rest
  | minus {ls e rest} : Derives (.expr signPower) ls [e] rest →
      Derives .operand (.operator .sub :: ls) [.negate e] rest
  | plus {ls e rest} : Derives (.expr signPower) ls [e] rest →
      Derives .operand (.operator .add :: ls) [e] rest
  | stop {least lhs ls} : Stops least ls → Derives (.operators least lhs) ls [lhs] ls
  | conditional {least lhs ls ifTrue mid ifFalse mid' whole rest} : least ≤ conditionPower →
      Derives (.expr 0) ls [ifTrue] (.colon :: mid) →
      Derives (.expr branchPower) mid [ifFalse] mid' →
      Derives (.operators least (.conditional lhs ifTrue ifFalse)) mid' [whole] rest →
      Derives (.operators least lhs) (.question :: ls) [whole] rest
  | binary {least lhs op ls rhs mid whole rest} : least ≤ op.leftPower →
      Derives (.expr op.rightPower) ls [rhs] mid →
      Derives (.operators least (.binary op lhs rhs)) mid [whole] rest →
      Derives (.operators least lhs) (.operator op :: ls) [whole] rest
  | bracketed {ls es rest} : Derives .items ls es rest → Derives .argument (.lbracket :: ls) es rest
  | single {ls e rest} : ls.head? ≠ some .lbracket → Derives (.expr 0) ls [e] rest →
      Derives .argument ls [e] rest
  | noArguments {ls} : Derives .arguments (.rparen :: ls) [] ls
  | lastArgument {ls es rest} : ls.head? ≠ some .rparen →
      Derives .argument ls es (.rparen :: rest) → Derives .arguments ls es rest
  | moreArguments {ls es mid more rest} : ls.head? ≠ some .rparen →
      Derives .argument ls es (.comma :: mid) → Derives .arguments mid more rest →
      Derives .arguments ls (es ++ more) rest
  | noItems {ls} : Derives .items (.rbracket :: ls) [] ls
  | lastItem {ls e rest} : ls.head? ≠ some .rbracket →
      Derives (.expr 0) ls [e] (.rbracket :: rest) → Derives .items ls [e] rest
  | moreItems {ls e mid more rest} : ls.head? ≠ some .rbracket →
      Derives (.expr 0) ls [e] (.comma :: mid) → Derives .items mid more rest →
      Derives .items ls (e :: more) rest

/-! ### The readers read what the rules derive -/

/-- The lexemes of some tokens. -/
abbrev lexemesOf (ts : List Token) : List Lexeme := ts.map Token.lexeme

/-- What the reader of a phrase reads from some tokens, and the tokens behind it. -/
def Accepts (stop : Nat) : Phrase → List Token → List Expr → List Token → Prop
  | .expr least, ts, es, rest => ∃ e h, es = [e] ∧ expr stop least ts = .ok ⟨e, rest, h⟩
  | .operand, ts, es, rest => ∃ e h, es = [e] ∧ operand stop ts = .ok ⟨e, rest, h⟩
  | .operators least lhs, ts, es, rest =>
    ∃ e h, es = [e] ∧ operators stop least lhs ts = .ok ⟨e, rest, h⟩
  | .argument, ts, es, rest => ∃ h, argument stop ts = .ok ⟨es, rest, h⟩
  | .arguments, ts, es, rest => ∀ opened, ∃ h, arguments stop opened ts = .ok ⟨es, rest, h⟩
  | .items, ts, es, rest => ∀ opened, ∃ h, items stop opened ts = .ok ⟨es, rest, h⟩

-- Naming the readers here generates their equations once, ahead of the proofs that use them.
attribute [local simp] expr operand operators argument arguments items

variable {stop : Nat}

/-- An operator that does not bind tightly enough is left alone. -/
theorem operators_stop {least : Nat} {lhs : Expr} {ts : List Token}
    (h : Stops least (lexemesOf ts)) :
    operators stop least lhs ts = .ok ⟨lhs, ts, Nat.le_refl _⟩ := by
  rw [operators.eq_def]
  split
  · rw [if_pos (h.question rfl)]
  · next op _ rest => rw [if_pos (h.operator op rfl)]
  · rfl

/-- The tokens of a row of lexemes that begins with a given one. -/
theorem lexemesOf_eq_cons {ts : List Token} {l : Lexeme} {ls : List Lexeme} :
    lexemesOf ts = l :: ls ↔ ∃ pos rest, ts = ⟨l, pos⟩ :: rest ∧ lexemesOf rest = ls := by
  rw [List.map_eq_cons_iff]
  constructor
  · rintro ⟨⟨l', pos⟩, rest, rfl, rfl, h⟩
    exact ⟨pos, rest, rfl, h⟩
  · rintro ⟨pos, rest, rfl, h⟩
    exact ⟨_, rest, rfl, rfl, h⟩

section Single

variable {ts rest : List Token} {e : Expr}

theorem accepts_expr {least : Nat} : Accepts stop (.expr least) ts [e] rest ↔
    ∃ h, expr stop least ts = .ok ⟨e, rest, h⟩ := by
  simp only [Accepts, List.cons.injEq, and_true]
  exact ⟨fun ⟨_, h, he, hr⟩ => ⟨h, he ▸ hr⟩, fun ⟨h, hr⟩ => ⟨e, h, rfl, hr⟩⟩

theorem accepts_operand : Accepts stop .operand ts [e] rest ↔
    ∃ h, operand stop ts = .ok ⟨e, rest, h⟩ := by
  simp only [Accepts, List.cons.injEq, and_true]
  exact ⟨fun ⟨_, h, he, hr⟩ => ⟨h, he ▸ hr⟩, fun ⟨h, hr⟩ => ⟨e, h, rfl, hr⟩⟩

theorem accepts_operators {least : Nat} {lhs : Expr} :
    Accepts stop (.operators least lhs) ts [e] rest ↔
      ∃ h, operators stop least lhs ts = .ok ⟨e, rest, h⟩ := by
  simp only [Accepts, List.cons.injEq, and_true]
  exact ⟨fun ⟨_, h, he, hr⟩ => ⟨h, he ▸ hr⟩, fun ⟨h, hr⟩ => ⟨e, h, rfl, hr⟩⟩

end Single

theorem head?_lexemesOf {ts : List Token} {l : Lexeme} :
    (lexemesOf ts).head? = some l ↔ ∃ pos rest, ts = ⟨l, pos⟩ :: rest := by
  cases ts with
  | nil => simp
  | cons t ts =>
    obtain ⟨l', pos⟩ := t
    simp

theorem head?_lexemesOf_ne {ts : List Token} {l : Lexeme} :
    (lexemesOf ts).head? ≠ some l ↔ ∀ pos rest, ts ≠ ⟨l, pos⟩ :: rest := by
  rw [Ne, head?_lexemesOf]
  simp only [not_exists, ne_eq]

/-- What the rules derive is read. -/
theorem Derives.accepts {p : Phrase} {ls rest : List Lexeme} {es : List Expr}
    (h : Derives p ls es rest) (stop : Nat) :
    ∀ ts, lexemesOf ts = ls → ∃ after, lexemesOf after = rest ∧ Accepts stop p ts es after := by
  -- one case for each rule; the tokens are cut as the rule cuts their lexemes
  induction h with
  | expr _ _ ihFirst ihWhole =>
    intro ts hts
    obtain ⟨mid, hmid, hfirst⟩ := ihFirst ts hts
    obtain ⟨after, hafter, hwhole⟩ := ihWhole mid hmid
    obtain ⟨h₁, hfirst⟩ := accepts_operand.mp hfirst
    obtain ⟨h₂, hwhole⟩ := accepts_operators.mp hwhole
    refine ⟨after, hafter, accepts_expr.mpr ⟨by omega, ?_⟩⟩
    rw [FieldLang.expr, hfirst]
    simp only [bind, Except.bind, hwhole]
    rfl
  | number =>
    intro ts hts
    obtain ⟨pos, after, rfl, hafter⟩ := lexemesOf_eq_cons.mp hts
    refine ⟨after, hafter, accepts_operand.mpr ⟨by simp, ?_⟩⟩
    rw [FieldLang.operand]
  | step =>
    intro ts hts
    obtain ⟨pos, after, rfl, hafter⟩ := lexemesOf_eq_cons.mp hts
    obtain ⟨pos', after', rfl, hafter'⟩ := lexemesOf_eq_cons.mp hafter
    refine ⟨after', hafter', accepts_operand.mpr ⟨by simp only [List.length_cons]; omega, ?_⟩⟩
    rw [FieldLang.operand]
  | name hstep =>
    intro ts hts
    obtain ⟨pos, after, rfl, hafter⟩ := lexemesOf_eq_cons.mp hts
    refine ⟨after, hafter, accepts_operand.mpr ⟨by simp, ?_⟩⟩
    rw [FieldLang.operand]
    exact fun op => head?_lexemesOf_ne.mp (by rw [hafter]; exact hstep op)
  | call _ ih =>
    intro ts hts
    obtain ⟨pos, after, rfl, hafter⟩ := lexemesOf_eq_cons.mp hts
    obtain ⟨pos', after', rfl, hafter'⟩ := lexemesOf_eq_cons.mp hafter
    obtain ⟨rest, hrest, hargs⟩ := ih after' hafter'
    obtain ⟨h₁, hargs⟩ := hargs pos
    refine ⟨rest, hrest, accepts_operand.mpr ⟨by simp; omega, ?_⟩⟩
    rw [FieldLang.operand, hargs]
    rfl
  | parens _ ih =>
    intro ts hts
    obtain ⟨pos, after, rfl, hafter⟩ := lexemesOf_eq_cons.mp hts
    obtain ⟨rest, hrest, hinner⟩ := ih after hafter
    obtain ⟨pos', rest', rfl, hrest'⟩ := lexemesOf_eq_cons.mp hrest
    obtain ⟨h₁, hinner⟩ := accepts_expr.mp hinner
    have hlt : rest'.length + 1 < after.length := h₁
    refine ⟨rest', hrest', accepts_operand.mpr ⟨by simp; omega, ?_⟩⟩
    rw [FieldLang.operand, hinner]
    rfl
  | minus _ ih =>
    intro ts hts
    obtain ⟨pos, after, rfl, hafter⟩ := lexemesOf_eq_cons.mp hts
    obtain ⟨rest, hrest, hinner⟩ := ih after hafter
    obtain ⟨h₁, hinner⟩ := accepts_expr.mp hinner
    refine ⟨rest, hrest, accepts_operand.mpr ⟨by simp; omega, ?_⟩⟩
    rw [FieldLang.operand, hinner]
    rfl
  | plus _ ih =>
    intro ts hts
    obtain ⟨pos, after, rfl, hafter⟩ := lexemesOf_eq_cons.mp hts
    obtain ⟨rest, hrest, hinner⟩ := ih after hafter
    obtain ⟨h₁, hinner⟩ := accepts_expr.mp hinner
    refine ⟨rest, hrest, accepts_operand.mpr ⟨by simp; omega, ?_⟩⟩
    rw [FieldLang.operand, hinner]
    rfl
  | stop hstop =>
    intro ts hts
    refine ⟨ts, hts, accepts_operators.mpr ⟨Nat.le_refl _, operators_stop ?_⟩⟩
    rw [hts]
    exact hstop
  | conditional hleast _ _ _ ihTrue ihFalse ihWhole =>
    intro ts hts
    obtain ⟨pos, after, rfl, hafter⟩ := lexemesOf_eq_cons.mp hts
    obtain ⟨mid, hmid, htrue⟩ := ihTrue after hafter
    obtain ⟨pos', mid', rfl, hmid'⟩ := lexemesOf_eq_cons.mp hmid
    obtain ⟨mid'', hmid'', hfalse⟩ := ihFalse mid' hmid'
    obtain ⟨rest, hrest, hwhole⟩ := ihWhole mid'' hmid''
    obtain ⟨h₁, htrue⟩ := accepts_expr.mp htrue
    obtain ⟨h₂, hfalse⟩ := accepts_expr.mp hfalse
    obtain ⟨h₃, hwhole⟩ := accepts_operators.mp hwhole
    have hlt : mid'.length + 1 < after.length := h₁
    refine ⟨rest, hrest, accepts_operators.mpr ⟨by simp; omega, ?_⟩⟩
    rw [FieldLang.operators, if_neg (by omega), htrue]
    simp only [bind, Except.bind, hfalse, hwhole]
    rfl
  | binary hleast _ _ ihRhs ihWhole =>
    intro ts hts
    obtain ⟨pos, after, rfl, hafter⟩ := lexemesOf_eq_cons.mp hts
    obtain ⟨mid, hmid, hrhs⟩ := ihRhs after hafter
    obtain ⟨rest, hrest, hwhole⟩ := ihWhole mid hmid
    obtain ⟨h₁, hrhs⟩ := accepts_expr.mp hrhs
    obtain ⟨h₂, hwhole⟩ := accepts_operators.mp hwhole
    refine ⟨rest, hrest, accepts_operators.mpr ⟨by simp; omega, ?_⟩⟩
    rw [FieldLang.operators, if_neg (by omega), hrhs]
    simp only [bind, Except.bind, hwhole]
    rfl
  | bracketed _ ih =>
    intro ts hts
    obtain ⟨pos, after, rfl, hafter⟩ := lexemesOf_eq_cons.mp hts
    obtain ⟨rest, hrest, hitems⟩ := ih after hafter
    obtain ⟨h₁, hitems⟩ := hitems pos
    refine ⟨rest, hrest, by simp; omega, ?_⟩
    rw [FieldLang.argument, hitems]
    rfl
  | single hfront _ ih =>
    intro ts hts
    obtain ⟨rest, hrest, hinner⟩ := ih ts hts
    obtain ⟨h₁, hinner⟩ := accepts_expr.mp hinner
    refine ⟨rest, hrest, h₁, ?_⟩
    rw [FieldLang.argument, hinner]
    · rfl
    · exact head?_lexemesOf_ne.mp (by rwa [hts])
  | noArguments =>
    intro ts hts
    obtain ⟨pos, after, rfl, hafter⟩ := lexemesOf_eq_cons.mp hts
    refine ⟨after, hafter, fun opened => ⟨by simp, ?_⟩⟩
    rw [FieldLang.arguments]
  | lastArgument hfront _ ih =>
    intro ts hts
    obtain ⟨rest, hrest, h₁, hfirst⟩ := ih ts hts
    obtain ⟨pos, rest', rfl, hrest'⟩ := lexemesOf_eq_cons.mp hrest
    have hlt : rest'.length + 1 < ts.length := h₁
    refine ⟨rest', hrest', fun opened => ⟨by omega, ?_⟩⟩
    rw [FieldLang.arguments, hfirst]
    · rfl
    · exact head?_lexemesOf_ne.mp (by rwa [hts])
  | moreArguments hfront _ _ ihFirst ihMore =>
    intro ts hts
    obtain ⟨mid, hmid, h₁, hfirst⟩ := ihFirst ts hts
    obtain ⟨pos, mid', rfl, hmid'⟩ := lexemesOf_eq_cons.mp hmid
    obtain ⟨rest, hrest, hmore⟩ := ihMore mid' hmid'
    refine ⟨rest, hrest, fun opened => ?_⟩
    obtain ⟨h₂, hmore⟩ := hmore opened
    have hlt : mid'.length + 1 < ts.length := h₁
    refine ⟨by omega, ?_⟩
    rw [FieldLang.arguments, hfirst]
    · simp only [bind, Except.bind, hmore]
      rfl
    · exact head?_lexemesOf_ne.mp (by rwa [hts])
  | noItems =>
    intro ts hts
    obtain ⟨pos, after, rfl, hafter⟩ := lexemesOf_eq_cons.mp hts
    refine ⟨after, hafter, fun opened => ⟨by simp, ?_⟩⟩
    rw [FieldLang.items]
  | lastItem hfront _ ih =>
    intro ts hts
    obtain ⟨rest, hrest, hfirst⟩ := ih ts hts
    obtain ⟨pos, rest', rfl, hrest'⟩ := lexemesOf_eq_cons.mp hrest
    obtain ⟨h₁, hfirst⟩ := accepts_expr.mp hfirst
    have hlt : rest'.length + 1 < ts.length := h₁
    refine ⟨rest', hrest', fun opened => ⟨by omega, ?_⟩⟩
    rw [FieldLang.items, hfirst]
    · rfl
    · exact head?_lexemesOf_ne.mp (by rwa [hts])
  | moreItems hfront _ _ ihFirst ihMore =>
    intro ts hts
    obtain ⟨mid, hmid, hfirst⟩ := ihFirst ts hts
    obtain ⟨pos, mid', rfl, hmid'⟩ := lexemesOf_eq_cons.mp hmid
    obtain ⟨rest, hrest, hmore⟩ := ihMore mid' hmid'
    obtain ⟨h₁, hfirst⟩ := accepts_expr.mp hfirst
    refine ⟨rest, hrest, fun opened => ?_⟩
    obtain ⟨h₂, hmore⟩ := hmore opened
    have hlt : mid'.length + 1 < ts.length := h₁
    refine ⟨by omega, ?_⟩
    rw [FieldLang.items, hfirst]
    · simp only [bind, Except.bind, hmore]
      rfl
    · exact head?_lexemesOf_ne.mp (by rwa [hts])

/-! ### The readers read nothing else -/

/-- Whatever the readers read from some tokens, the rules derive. -/
structure Grounded (stop : Nat) (ts : List Token) : Prop where
  operand : ∀ {t}, operand stop ts = .ok t →
    Derives .operand (lexemesOf ts) [t.value] (lexemesOf t.rest)
  operators : ∀ {least lhs t}, operators stop least lhs ts = .ok t →
    Derives (.operators least lhs) (lexemesOf ts) [t.value] (lexemesOf t.rest)
  expr : ∀ {least t}, expr stop least ts = .ok t →
    Derives (.expr least) (lexemesOf ts) [t.value] (lexemesOf t.rest)
  argument : ∀ {t}, argument stop ts = .ok t →
    Derives .argument (lexemesOf ts) t.value (lexemesOf t.rest)
  arguments : ∀ {opened t}, arguments stop opened ts = .ok t →
    Derives .arguments (lexemesOf ts) t.value (lexemesOf t.rest)
  items : ∀ {opened t}, items stop opened ts = .ok t →
    Derives .items (lexemesOf ts) t.value (lexemesOf t.rest)

section Step

variable {ts : List Token} (ih : ∀ ts', ts'.length < ts.length → Grounded stop ts')
include ih

theorem grounded_operand {t : Taken Expr ts} (h : operand stop ts = .ok t) :
    Derives .operand (lexemesOf ts) [t.value] (lexemesOf t.rest) := by
  rw [operand.eq_def] at h
  -- one goal for each branch of the reader; a branch that fails reads nothing
  split at h
  · cases h
    exact .number
  · cases h
    exact .step
  · next name pos rest hstep =>
    cases h
    refine .name fun op hop => ?_
    obtain ⟨pos', rest', rfl⟩ := head?_lexemesOf.mp hop
    exact hstep op pos' rest' rfl
  · obtain ⟨args, hargs, h⟩ := bind_eq_ok.mp h
    cases h
    exact .call ((ih _ (by simp only [List.length_cons]; omega)).arguments hargs)
  · cases h
  · next pos rest =>
    obtain ⟨inner, hinner, h⟩ := bind_eq_ok.mp h
    have hd := (ih rest (by simp)).expr hinner
    split at h
    · next hrest =>
      cases h
      rw [hrest] at hd
      exact .parens hd
    · cases h
  · next pos rest =>
    obtain ⟨inner, hinner, h⟩ := bind_eq_ok.mp h
    cases h
    exact .minus ((ih rest (by simp)).expr hinner)
  · next pos rest =>
    obtain ⟨inner, hinner, h⟩ := bind_eq_ok.mp h
    cases h
    exact .plus ((ih rest (by simp)).expr hinner)
  · cases h

theorem grounded_operators {least : Nat} {lhs : Expr} {t : Kept Expr ts}
    (h : operators stop least lhs ts = .ok t) :
    Derives (.operators least lhs) (lexemesOf ts) [t.value] (lexemesOf t.rest) := by
  rw [operators.eq_def] at h
  split at h
  · next pos rest =>
    -- an operator that binds too loosely is left where it is
    by_cases hlt : conditionPower < least
    · rw [if_pos hlt] at h
      cases h
      exact .stop ⟨fun _ => hlt, by simp⟩
    · rw [if_neg hlt] at h
      obtain ⟨ifTrue, htrue, h⟩ := bind_eq_ok.mp h
      have hd := (ih rest (by simp)).expr htrue
      have hlen := ifTrue.lt
      split at h
      -- each part ends before the next one begins, so the induction goes on behind it
      · next pos' after hrest =>
        rw [hrest] at hd hlen
        obtain ⟨ifFalse, hfalse, h⟩ := bind_eq_ok.mp h
        obtain ⟨whole, hwhole, h⟩ := bind_eq_ok.mp h
        cases h
        have hlen' := ifFalse.lt
        simp only [List.length_cons] at hlen
        have hd' := (ih after (by simp only [List.length_cons]; omega)).expr hfalse
        have hd'' := (ih _ (by simp only [List.length_cons]; omega)).operators hwhole
        exact .conditional (by omega) hd hd' hd''
      · cases h
  · next op pos rest =>
    by_cases hlt : op.leftPower < least
    · rw [if_pos hlt] at h
      cases h
      refine .stop ⟨by simp, fun op' hop => ?_⟩
      cases hop
      exact hlt
    · rw [if_neg hlt] at h
      obtain ⟨rhs, hrhs, h⟩ := bind_eq_ok.mp h
      obtain ⟨whole, hwhole, h⟩ := bind_eq_ok.mp h
      cases h
      have hlen := rhs.lt
      have hd := (ih rest (by simp)).expr hrhs
      have hd' := (ih _ (by simp only [List.length_cons]; omega)).operators hwhole
      exact .binary (by omega) hd hd'
  · next hquestion hoperator =>
    cases h
    refine .stop ⟨fun hq => ?_, fun op hop => ?_⟩
    · obtain ⟨pos, rest, rfl⟩ := head?_lexemesOf.mp hq
      exact absurd rfl (hquestion pos rest)
    · obtain ⟨pos, rest, rfl⟩ := head?_lexemesOf.mp hop
      exact absurd rfl (hoperator op pos rest)

theorem grounded_expr {least : Nat} {t : Taken Expr ts} (h : expr stop least ts = .ok t) :
    Derives (.expr least) (lexemesOf ts) [t.value] (lexemesOf t.rest) := by
  rw [expr] at h
  obtain ⟨first, hfirst, h⟩ := bind_eq_ok.mp h
  obtain ⟨whole, hwhole, h⟩ := bind_eq_ok.mp h
  cases h
  exact .expr (grounded_operand ih hfirst) ((ih _ first.lt).operators hwhole)

theorem grounded_argument {t : Taken (List Expr) ts} (h : argument stop ts = .ok t) :
    Derives .argument (lexemesOf ts) t.value (lexemesOf t.rest) := by
  rw [argument.eq_def] at h
  split at h
  · next pos rest =>
    obtain ⟨list, hlist, h⟩ := bind_eq_ok.mp h
    cases h
    exact .bracketed ((ih rest (by simp)).items hlist)
  · next hfront =>
    obtain ⟨e, he, h⟩ := bind_eq_ok.mp h
    cases h
    exact .single (head?_lexemesOf_ne.mpr hfront) (grounded_expr ih he)

theorem grounded_arguments {opened : Nat} {t : Taken (List Expr) ts}
    (h : arguments stop opened ts = .ok t) :
    Derives .arguments (lexemesOf ts) t.value (lexemesOf t.rest) := by
  rw [arguments.eq_def] at h
  split at h
  · cases h
    exact .noArguments
  · next hfront =>
    have hhead : (lexemesOf ts).head? ≠ some .rparen := head?_lexemesOf_ne.mpr hfront
    obtain ⟨first, hfirst, h⟩ := bind_eq_ok.mp h
    have hd := grounded_argument ih hfirst
    have hlen := first.lt
    split at h
    · next hrest =>
      rw [hrest] at hd hlen
      obtain ⟨more, hmore, h⟩ := bind_eq_ok.mp h
      cases h
      simp only [List.length_cons] at hlen
      exact .moreArguments hhead hd ((ih _ (by omega)).arguments hmore)
    · next hrest =>
      rw [hrest] at hd
      cases h
      exact .lastArgument hhead hd
    · cases h

theorem grounded_items {opened : Nat} {t : Taken (List Expr) ts}
    (h : items stop opened ts = .ok t) :
    Derives .items (lexemesOf ts) t.value (lexemesOf t.rest) := by
  rw [items.eq_def] at h
  split at h
  · cases h
    exact .noItems
  · next hfront =>
    have hhead : (lexemesOf ts).head? ≠ some .rbracket := head?_lexemesOf_ne.mpr hfront
    obtain ⟨first, hfirst, h⟩ := bind_eq_ok.mp h
    have hd := grounded_expr ih hfirst
    have hlen := first.lt
    split at h
    · next hrest =>
      rw [hrest] at hd hlen
      obtain ⟨more, hmore, h⟩ := bind_eq_ok.mp h
      cases h
      simp only [List.length_cons] at hlen
      exact .moreItems hhead hd ((ih _ (by omega)).items hmore)
    · next hrest =>
      rw [hrest] at hd
      cases h
      exact .lastItem hhead hd
    · cases h

end Step

/-- The readers agree with the rules on all tokens: by induction on their number, since every
reader calls itself and the others on fewer tokens. -/
theorem grounded (ts : List Token) : Grounded stop ts := by
  induction hn : ts.length using Nat.strongRecOn generalizing ts with
  | ind n ih =>
    have ih' : ∀ ts', ts'.length < ts.length → Grounded stop ts' :=
      fun ts' hlt => ih ts'.length (hn ▸ hlt) ts' rfl
    exact
      { operand := grounded_operand ih'
        operators := grounded_operators ih'
        expr := grounded_expr ih'
        argument := grounded_argument ih'
        arguments := grounded_arguments ih'
        items := grounded_items ih' }

end FieldLang
