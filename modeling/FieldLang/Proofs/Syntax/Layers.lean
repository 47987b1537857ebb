/-
The layers of the grammar.

* `Layer`, `Layered` : expressions, one layer for each rank of operators;
* `SpellsStatement`, `SpellsProgram` : statements and programs;
* `Derives.takes`, `Layered.reads` : reading by powers takes from the front of some lexemes what a
  layer spells, and all of it;
* `parseTokens_ok_iff` : the parser reads exactly the programs that the grammar spells.

Design notes: the grammar says what a whole row of lexemes spells, without a word on powers or on what
is behind the row. Reading by powers is a loop, which holds a left side and goes on as long as operators
bind tightly enough. Its invariant is the layer that the left side has reached: no operator in front of
the rest needs a tighter one.
-/
import FieldLang.Proofs.Syntax.Sentence
import FieldLang.Proofs.Syntax.Warnings

namespace FieldLang

/-! ### The grammar -/

/-- The layers of expressions, from the loosest to the tightest. -/
inductive Layer where
  | ternary | or | and | equality | relation | sum | product | power | unary | primary
deriving DecidableEq

/-- The next layer, whose expressions need no brackets in this one. -/
def Layer.tighter? : Layer → Option Layer
  | ternary => some or
  | or => some and
  | and => some equality
  | equality => some relation
  | relation => some sum
  | sum => some product
  | product => some power
  | power => some unary
  | unary => some primary
  | primary => none

/-- The layer of an operator. -/
def BinOp.layer : BinOp → Layer
  | or => .or
  | and => .and
  | eq | notEq => .equality
  | greater | greaterEq | less | lessEq => .relation
  | add | sub => .sum
  | mul | div => .product
  | pow => .power

/-- What a row of lexemes may spell: an expression of some layer, or a row of expressions between
brackets. -/
inductive Category where
  | layer (l : Layer)
  | argument
  | arguments
  | items

/-- The expressions that a row of lexemes spells. An argument in square brackets counts as its items,
and a row of arguments or items may end in a comma. -/
inductive Layered : Category → List Lexeme → List Expr → Prop where
  | tighter {l l' ls e} : l.tighter? = some l' → Layered (.layer l') ls [e] → Layered (.layer l) ls [e]
  | conditional {cs c ts t fs f} : Layered (.layer .or) cs [c] → Layered (.layer .ternary) ts [t] →
      Layered (.layer .ternary) fs [f] →
      Layered (.layer .ternary) (cs ++ .question :: (ts ++ .colon :: fs)) [.conditional c t f]
  | left {op l as a bs b} : op ≠ .pow → op.layer.tighter? = some l → Layered (.layer op.layer) as [a] →
      Layered (.layer l) bs [b] →
      Layered (.layer op.layer) (as ++ .operator op :: bs) [.binary op a b]
  | pow {as a bs b} : Layered (.layer .unary) as [a] → Layered (.layer .power) bs [b] →
      Layered (.layer .power) (as ++ .operator .pow :: bs) [.binary .pow a b]
  | minus {ls e} : Layered (.layer .unary) ls [e] →
      Layered (.layer .unary) (.operator .sub :: ls) [.negate e]
  | plus {ls e} : Layered (.layer .unary) ls [e] → Layered (.layer .unary) (.operator .add :: ls) [e]
  | number {value} : Layered (.layer .primary) [.number value] [.number value]
  | name {name} : Layered (.layer .primary) [.variable name] [.variable name]
  | step {name op} : Layered (.layer .primary) [.variable name, .step op] [.step name op]
  | call {f ls args} : Layered .arguments ls args →
      Layered (.layer .primary) (.function f :: .lparen :: (ls ++ [.rparen])) [.call f args]
  | parens {ls e} : Layered (.layer .ternary) ls [e] →
      Layered (.layer .primary) (.lparen :: (ls ++ [.rparen])) [e]
  | single {ls e} : Layered (.layer .ternary) ls [e] → Layered .argument ls [e]
  | bracketed {ls es} : Layered .items ls es →
      Layered .argument (.lbracket :: (ls ++ [.rbracket])) es
  | noArguments : Layered .arguments [] []
  | lastArgument {ls es} : Layered .argument ls es → Layered .arguments ls es
  | moreArguments {ls es ms fs} : Layered .argument ls es → Layered .arguments ms fs →
      Layered .arguments (ls ++ .comma :: ms) (es ++ fs)
  | noItems : Layered .items [] []
  | lastItem {ls e} : Layered (.layer .ternary) ls [e] → Layered .items ls [e]
  | moreItems {ls e ms fs} : Layered (.layer .ternary) ls [e] → Layered .items ms fs →
      Layered .items (ls ++ .comma :: ms) (e :: fs)

/-- The names that a row of lexemes spells; it may end in a comma. -/
inductive SpellsNames : List Lexeme → List String → Prop where
  | none : SpellsNames [] []
  | last {name} : SpellsNames [.variable name] [name]
  | more {name ls names} : SpellsNames ls names →
      SpellsNames (.variable name :: .comma :: ls) (name :: names)

/-- The statement that a row of lexemes spells. A step on its own is an assignment and no
expression. -/
inductive SpellsStatement : List Lexeme → Stmt → Prop where
  | unpack {ls names vs value} : SpellsNames ls names → names ≠ [] →
      Layered (.layer .ternary) vs [value] →
      SpellsStatement (.lbracket :: (ls ++ .rbracket :: .assign .plain :: vs)) (.unpack names value)
  | assignEach {ls names vs values} : SpellsNames ls names → names ≠ [] → Layered .items vs values →
      values.length = names.length →
      SpellsStatement
        (.lbracket :: (ls ++ .rbracket :: .assign .plain :: .lbracket :: (vs ++ [.rbracket])))
        (.assignEach names values)
  | assign {name op vs value} : Layered (.layer .ternary) vs [value] →
      SpellsStatement (.variable name :: .assign op :: vs) (.assign name (updated op name value))
  | step {name op} : SpellsStatement [.variable name, .step op] (.assign name (advanced op name))
  | result {ls e} : (∀ name op, ls ≠ [.variable name, .step op]) →
      Layered (.layer .ternary) ls [e] → SpellsStatement ls (.result e)

/-- The program that a row of lexemes spells: statements between separators, an empty one before
each separator that follows none. -/
inductive SpellsProgram : List Lexeme → Program → Prop where
  | done : SpellsProgram [] []
  | empty {l ls p} : l = .comma ∨ l = .semicolon → SpellsProgram ls p →
      SpellsProgram (l :: ls) (.empty :: p)
  | last {ls s} : SpellsStatement ls s → SpellsProgram ls [s]
  | more {ls s l rest p} : SpellsStatement ls s → l = .comma ∨ l = .semicolon →
      SpellsProgram rest p → SpellsProgram (ls ++ l :: rest) (s :: p)

/-! ### Ranks -/

namespace Layer

/-- The layer of a rank; behind the ranks of the operators there are those with signs. -/
def ofRank : Nat → Layer
  | 0 => ternary
  | 1 => or
  | 2 => and
  | 3 => equality
  | 4 => relation
  | 5 => sum
  | 6 => product
  | 7 => power
  | _ => unary

end Layer

namespace BinOp

/-- The rank of the layer of an operator. -/
def rank (op : BinOp) : Nat := op.precedence / 2

/-- The rank that the left side of an operator must have reached. -/
def leftRank : BinOp → Nat
  | pow => 8
  | op => op.rank

theorem ofRank_rank (op : BinOp) : Layer.ofRank op.rank = op.layer := by
  cases op <;> rfl

theorem leftRank_of_ne {op : BinOp} (h : op ≠ .pow) : op.leftRank = op.rank := by
  cases op with
  | pow => exact absurd rfl h
  | _ => rfl

/-- The right side of an operator is read with the power of the next layer. -/
theorem tighter?_layer {op : BinOp} (h : op ≠ .pow) :
    op.layer.tighter? = some (.ofRank (op.rightPower / 2)) := by
  cases op with
  | pow => exact absurd rfl h
  | _ => rfl

/-- Only operators of a tighter layer are left to a phrase with a higher power. -/
theorem half_le_rank {op : BinOp} {least : Nat} (h : least ≤ op.leftPower)
    (hpow : least ≠ pow.leftPower) : least / 2 ≤ op.rank := by
  cases op with
  | pow =>
    have hlt : least < 16 := Nat.lt_of_le_of_ne h hpow
    show least / 2 ≤ 7
    omega
  | _ => exact Nat.div_le_div_right h

end BinOp

/-- No operator in front needs a left side of a higher rank. -/
structure Follows (rank : Nat) (ls : List Lexeme) : Prop where
  question : ls.head? = some .question → 1 ≤ rank
  operator : ∀ op, ls.head? = some (.operator op) → op.leftRank ≤ rank

theorem Follows.of_le {rank : Nat} (h : 8 ≤ rank) (ls : List Lexeme) : Follows rank ls := by
  refine ⟨fun _ => by omega, fun op _ => Nat.le_trans ?_ h⟩
  cases op <;> decide

/-- Behind the right side of an operator, none is in front that binds tighter than it. -/
theorem Follows.of_stops {op : BinOp} {ls : List Lexeme} (h : Stops op.rightPower ls) :
    Follows op.rank ls := by
  refine ⟨fun _ => by cases op <;> decide, fun op' hop' => ?_⟩
  have hlt := h.operator op' hop'
  revert hlt
  cases op <;> cases op' <;> decide

/-- An expression of a tighter layer is one of a looser layer. -/
theorem Layered.of_rank_le {r k : Nat} {ls : List Lexeme} {e : Expr} (hle : r ≤ k)
    (h : Layered (.layer (.ofRank k)) ls [e]) : Layered (.layer (.ofRank r)) ls [e] := by
  induction k, hle using Nat.le_induction with
  | base => exact h
  | succ k hle ih =>
    refine ih ?_
    match k with
    | 0 | 1 | 2 | 3 | 4 | 5 | 6 | 7 => exact .tighter rfl h
    | _ + 8 => exact h

/-- An operator and its sides are of its layer. -/
theorem Layered.binary {op : BinOp} {as bs : List Lexeme} {a b : Expr}
    (ha : Layered (.layer (.ofRank op.leftRank)) as [a])
    (hb : Layered (.layer (.ofRank (op.rightPower / 2))) bs [b]) :
    Layered (.layer (.ofRank op.rank)) (as ++ .operator op :: bs) [.binary op a b] := by
  by_cases hpow : op = .pow
  · subst hpow
    exact .pow ha hb
  · rw [BinOp.leftRank_of_ne hpow, op.ofRank_rank] at ha
    rw [op.ofRank_rank]
    exact .left hpow (BinOp.tighter?_layer hpow) ha hb

/-! ### What is read is spelled -/

/-- What a phrase takes from the front of some lexemes, in the words of the grammar. With the powers
of the conditional's left side and of a power's left side, which no phrase is read with, a phrase
would lie between two layers. -/
def Phrase.Takes : Phrase → List Lexeme → List Expr → List Lexeme → Prop
  | .expr least, ls, es, rest => least ≠ conditionPower → least ≠ BinOp.pow.leftPower →
    ∃ front, ls = front ++ rest ∧ Layered (.layer (.ofRank (least / 2))) front es ∧ Stops least rest
  | .operand, ls, es, rest => ∃ front, ls = front ++ rest ∧ Layered (.layer .unary) front es
  | .operators least lhs, ls, es, rest => least ≠ conditionPower → least ≠ BinOp.pow.leftPower →
    ∀ before rank, Layered (.layer (.ofRank rank)) before [lhs] → Follows rank ls → least / 2 ≤ rank →
      ∃ front, ls = front ++ rest ∧ Layered (.layer (.ofRank (least / 2))) (before ++ front) es ∧
        Stops least rest
  | .argument, ls, es, rest => ∃ front, ls = front ++ rest ∧ Layered .argument front es
  | .arguments, ls, es, rest => ∃ front, ls = front ++ .rparen :: rest ∧ Layered .arguments front es
  | .items, ls, es, rest => ∃ front, ls = front ++ .rbracket :: rest ∧ Layered .items front es

theorem Derives.takes {p : Phrase} {ls rest : List Lexeme} {es : List Expr}
    (h : Derives p ls es rest) : p.Takes ls es rest := by
  induction h with
  -- the operand in front is of the tightest layer, so any operator may follow it
  | @expr least _ _ _ _ _ _ _ ihFirst ihWhole =>
    intro hcondition hpow
    obtain ⟨before, rfl, hbefore⟩ := ihFirst
    obtain ⟨front, rfl, hfront, hstops⟩ := ihWhole hcondition hpow before (least / 2 + 8)
      hbefore (.of_le (Nat.le_add_left 8 _) _) (Nat.le_add_right _ 8)
    exact ⟨before ++ front, (List.append_assoc _ _ _).symm, hfront, hstops⟩
  | number => exact ⟨_, rfl, .tighter rfl .number⟩
  | @step name op ls => exact ⟨[.variable name, .step op], rfl, .tighter rfl .step⟩
  | @name name ls _ => exact ⟨[.variable name], rfl, .tighter rfl .name⟩
  | @call f _ _ _ _ ih =>
    obtain ⟨front, rfl, hfront⟩ := ih
    exact ⟨.function f :: .lparen :: (front ++ [.rparen]), by simp, .tighter rfl (.call hfront)⟩
  | parens _ ih =>
    obtain ⟨front, rfl, hfront, -⟩ := ih (by decide) (by decide)
    exact ⟨.lparen :: (front ++ [.rparen]), by simp, .tighter rfl (.parens hfront)⟩
  | minus _ ih =>
    obtain ⟨front, rfl, hfront, -⟩ := ih (by decide) (by decide)
    exact ⟨.operator .sub :: front, rfl, .minus hfront⟩
  | plus _ ih =>
    obtain ⟨front, rfl, hfront, -⟩ := ih (by decide) (by decide)
    exact ⟨.operator .add :: front, rfl, .plus hfront⟩
  | stop hstops =>
    intro _ _ before rank hbefore _ hle
    exact ⟨[], rfl, by rw [List.append_nil]; exact hbefore.of_rank_le hle, hstops⟩
  | @conditional least lhs ls ifTrue mid ifFalse mid' whole rest hleast _ _ _ ihTrue ihFalse ihWhole =>
    intro hcondition hpow before rank hbefore hfollows _
    obtain ⟨ts, rfl, hts, -⟩ := ihTrue (by decide) (by decide)
    obtain ⟨fs, rfl, hfs, hstops⟩ := ihFalse (by decide) (by decide)
    -- behind the second branch no operator is left, so the conditional is the whole expression
    have hnone : Follows 0 mid' :=
      ⟨fun h => absurd (hstops.question h) (by decide),
        fun op h => absurd (hstops.operator op h) (by cases op <;> decide)⟩
    have hwhole := Layered.conditional (hbefore.of_rank_le (hfollows.question rfl)) hts hfs
    have hzero : least / 2 ≤ 0 := by
      have : least ≤ 2 := hleast
      have : least ≠ 2 := hcondition
      omega
    obtain ⟨front, rfl, hfront, hstops'⟩ := ihWhole hcondition hpow _ 0 hwhole hnone hzero
    exact ⟨.question :: (ts ++ .colon :: (fs ++ front)), by simp, by simpa using hfront, hstops'⟩
  | @binary least lhs op ls rhs mid whole rest hleast _ _ ihRhs ihWhole =>
    intro hcondition hpow before rank hbefore hfollows _
    obtain ⟨bs, rfl, hbs, hstops⟩ := ihRhs (by cases op <;> decide) (by cases op <;> decide)
    -- what has been read is the left side, and then the whole is of the layer of the operator
    have hwhole := (hbefore.of_rank_le (hfollows.operator op rfl)).binary hbs
    have hrank := BinOp.half_le_rank hleast hpow
    obtain ⟨front, rfl, hfront, hstops'⟩ :=
      ihWhole hcondition hpow _ op.rank hwhole (.of_stops hstops) hrank
    exact ⟨.operator op :: (bs ++ front), by simp, by simpa using hfront, hstops'⟩
  | bracketed _ ih =>
    obtain ⟨front, rfl, hfront⟩ := ih
    exact ⟨.lbracket :: (front ++ [.rbracket]), by simp, .bracketed hfront⟩
  | single _ _ ih =>
    obtain ⟨front, rfl, hfront, -⟩ := ih (by decide) (by decide)
    exact ⟨front, rfl, .single hfront⟩
  | noArguments => exact ⟨[], rfl, .noArguments⟩
  | lastArgument _ _ ih =>
    obtain ⟨front, rfl, hfront⟩ := ih
    exact ⟨front, rfl, .lastArgument hfront⟩
  | moreArguments _ _ _ ihFirst ihMore =>
    obtain ⟨front, rfl, hfront⟩ := ihFirst
    obtain ⟨more, rfl, hmore⟩ := ihMore
    exact ⟨front ++ .comma :: more, by simp, .moreArguments hfront hmore⟩
  | noItems => exact ⟨[], rfl, .noItems⟩
  | lastItem _ _ ih =>
    obtain ⟨front, rfl, hfront, -⟩ := ih (by decide) (by decide)
    exact ⟨front, rfl, .lastItem hfront⟩
  | moreItems _ _ _ ihFirst ihMore =>
    obtain ⟨front, rfl, hfront, -⟩ := ihFirst (by decide) (by decide)
    obtain ⟨more, rfl, hmore⟩ := ihMore
    exact ⟨front ++ .comma :: more, by simp, .moreItems hfront hmore⟩

/-! ### What is spelled is read -/

/-- The least power of the operators of a layer on their left: with no higher one an expression of the
layer is read whole. -/
def Layer.floor : Layer → Nat
  | ternary => conditionPower
  | or => BinOp.or.leftPower
  | and => BinOp.and.leftPower
  | equality => BinOp.eq.leftPower
  | relation => BinOp.less.leftPower
  | sum => BinOp.add.leftPower
  | product => BinOp.mul.leftPower
  | power => BinOp.pow.leftPower
  | unary | primary => signPower

/-- The power that the last operand of an expression of a layer is read with. -/
def Layer.ceiling : Layer → Nat
  | ternary => branchPower
  | or => BinOp.or.rightPower
  | and => BinOp.and.rightPower
  | equality => BinOp.eq.rightPower
  | relation => BinOp.less.rightPower
  | sum => BinOp.add.rightPower
  | product => BinOp.mul.rightPower
  | power => BinOp.pow.rightPower
  | unary | primary => signPower

theorem Layer.floor_ceiling_mono {l l' : Layer} (h : l.tighter? = some l') :
    l.floor ≤ l'.floor ∧ l.ceiling ≤ l'.ceiling := by
  cases l <;> cases h <;> decide

theorem BinOp.floor_layer (op : BinOp) : op.layer.floor = op.leftPower := by
  cases op <;> rfl

theorem BinOp.ceiling_layer (op : BinOp) : op.layer.ceiling = op.rightPower := by
  cases op <;> rfl

/-- The left side of an operator that associates to the left ends at it, and its right side is read
whole. -/
theorem BinOp.powers_of_ne {op : BinOp} {l : Layer} (hpow : op ≠ .pow)
    (h : op.layer.tighter? = some l) : op.leftPower < op.rightPower ∧ op.rightPower ≤ l.floor := by
  cases op with
  | pow => exact absurd rfl hpow
  | _ => cases h; decide

/-- A lexeme that an expression may begin with. -/
def Lexeme.Opens : Lexeme → Prop
  | .number _ | .variable _ | .function _ | .lparen | .operator .sub | .operator .add => True
  | _ => False

/-- What the row of lexemes that spells something begins with. -/
def Category.Begins : Category → List Lexeme → Prop
  | .layer _, ls => ∃ l t, ls = l :: t ∧ l.Opens
  | .argument, ls => ∃ l t, ls = l :: t ∧ (l.Opens ∨ l = .lbracket)
  | .arguments, _ => True
  | .items, _ => True

theorem Layered.begins {c : Category} {ls : List Lexeme} {es : List Expr} (h : Layered c ls es) :
    c.Begins ls := by
  induction h with
  | tighter _ _ ih => exact ih
  | conditional _ _ _ ih | left _ _ _ _ ih | pow _ _ ih =>
    obtain ⟨l, t, rfl, hl⟩ := ih
    exact ⟨l, _, rfl, hl⟩
  | minus | plus | number | name | step | call | parens => exact ⟨_, _, rfl, trivial⟩
  | single _ ih =>
    obtain ⟨l, t, rfl, hl⟩ := ih
    exact ⟨l, t, rfl, .inl hl⟩
  | bracketed => exact ⟨_, _, rfl, .inr rfl⟩
  | noArguments | lastArgument | moreArguments | noItems | lastItem | moreItems => trivial

theorem Layered.head?_ne {l : Layer} {ls : List Lexeme} {es : List Expr} (h : Layered (.layer l) ls es)
    {x : Lexeme} (hx : ¬x.Opens) (rest : List Lexeme) : (ls ++ rest).head? ≠ some x := by
  obtain ⟨y, t, rfl, hy⟩ := h.begins
  rintro hhead
  cases hhead
  exact hx hy

theorem Layered.head?_argument_ne {ls : List Lexeme} {es : List Expr} (h : Layered .argument ls es)
    (rest : List Lexeme) : (ls ++ rest).head? ≠ some .rparen := by
  obtain ⟨y, t, rfl, hy | rfl⟩ := h.begins
  · rintro hhead
    cases hhead
    exact hy
  · nofun

/-- Nothing in front goes on with an expression. -/
structure Closes (ls : List Lexeme) : Prop where
  stops : Stops 0 ls
  step : ∀ op, ls.head? ≠ some (.step op)

/-- How what a row of lexemes spells is read from the front of others: an expression with a power
that its layer does not fall below, in front of operators that do not bind into it. -/
def Category.Reads : Category → List Lexeme → List Expr → Prop
  | .layer l, ls, es => ∀ e, es = [e] → ∀ least rest whole rest', least ≤ l.floor →
    Stops l.ceiling rest → (∀ op, rest.head? ≠ some (.step op)) →
    Derives (.operators least e) rest [whole] rest' → Derives (.expr least) (ls ++ rest) [whole] rest'
  | .argument, ls, es => ∀ rest, Closes rest → Derives .argument (ls ++ rest) es rest
  | .arguments, ls, es => ∀ rest, Derives .arguments (ls ++ .rparen :: rest) es rest
  | .items, ls, es => ∀ rest, Derives .items (ls ++ .rbracket :: rest) es rest

theorem Category.Reads.closed {ls rest : List Lexeme} {e : Expr}
    (h : Category.Reads (.layer .ternary) ls [e]) (hrest : Closes rest) :
    Derives (.expr 0) (ls ++ rest) [e] rest :=
  h e rfl 0 rest e rest (Nat.zero_le _) (hrest.stops.mono (Nat.zero_le _)) hrest.step
    (.stop hrest.stops)

theorem Layered.reads {c : Category} {ls : List Lexeme} {es : List Expr} (h : Layered c ls es) :
    c.Reads ls es := by
  induction h with
  | tighter hl _ ih =>
    rintro e ⟨⟩ least rest whole rest' hleast hstops hstep hwhole
    obtain ⟨hfloor, hceiling⟩ := Layer.floor_ceiling_mono hl
    exact ih _ rfl least rest whole rest' (Nat.le_trans hleast hfloor) (hstops.mono hceiling) hstep
      hwhole
  | @conditional cs c ts t fs f _ _ _ ihc iht ihf =>
    rintro _ ⟨⟩ least rest whole rest' hleast hstops hstep hwhole
    have hcolon : Closes (.colon :: (fs ++ rest)) := ⟨⟨nofun, nofun⟩, nofun⟩
    have htrue := iht.closed hcolon
    have hfalse := ihf f rfl branchPower rest f rest (by decide) hstops hstep (.stop hstops)
    have hcondition : Stops Layer.or.ceiling (.question :: (ts ++ .colon :: (fs ++ rest))) :=
      ⟨fun _ => by decide, nofun⟩
    have := ihc c rfl least _ whole rest' (Nat.le_trans hleast (by decide)) hcondition nofun
      (.conditional hleast htrue hfalse hwhole)
    simpa using this
  | @left op l as a bs b hpow hl _ _ iha ihb =>
    rintro _ ⟨⟩ least rest whole rest' hleast hstops hstep hwhole
    obtain ⟨hpowers, hright⟩ := BinOp.powers_of_ne hpow hl
    have hrest : Stops op.rightPower rest := by rwa [op.ceiling_layer] at hstops
    have hb := ihb b rfl op.rightPower rest b rest hright
      (hstops.mono (Layer.floor_ceiling_mono hl).2) hstep (.stop hrest)
    -- the left side ends at the operator, because it associates to the left
    have hfront : Stops op.layer.ceiling (.operator op :: (bs ++ rest)) := by
      rw [op.ceiling_layer]
      refine ⟨nofun, fun op' hop' => ?_⟩
      cases hop'
      exact hpowers
    have := iha a rfl least _ whole rest' hleast hfront nofun
      (.binary (by rwa [op.floor_layer] at hleast) hb hwhole)
    simpa using this
  | @pow as a bs b _ _ iha ihb =>
    rintro _ ⟨⟩ least rest whole rest' hleast hstops hstep hwhole
    have hb := ihb b rfl BinOp.pow.rightPower rest b rest (by decide) hstops hstep (.stop hstops)
    have := iha a rfl least _ whole rest' (Nat.le_trans hleast (by decide))
      (.of_signPower_le (Nat.le_refl _) (.operator .pow :: (bs ++ rest))) nofun
      (.binary hleast hb hwhole)
    simpa using this
  | @minus ls e _ ih =>
    rintro _ ⟨⟩ least rest whole rest' _ hstops hstep hwhole
    exact .expr (.minus (ih e rfl signPower rest e rest (Nat.le_refl _) hstops hstep (.stop hstops)))
      hwhole
  | @plus ls e _ ih =>
    rintro _ ⟨⟩ least rest whole rest' _ hstops hstep hwhole
    exact .expr (.plus (ih e rfl signPower rest e rest (Nat.le_refl _) hstops hstep (.stop hstops)))
      hwhole
  | number =>
    rintro _ ⟨⟩ least rest whole rest' _ _ _ hwhole
    exact .expr .number hwhole
  | name =>
    rintro _ ⟨⟩ least rest whole rest' _ _ hstep hwhole
    exact .expr (.name hstep) hwhole
  | step =>
    rintro _ ⟨⟩ least rest whole rest' _ _ _ hwhole
    exact .expr .step hwhole
  | call _ ih =>
    rintro _ ⟨⟩ least rest whole rest' _ _ _ hwhole
    have := Derives.expr (.call (ih rest)) hwhole
    simpa using this
  | parens _ ih =>
    rintro _ ⟨⟩ least rest whole rest' _ _ _ hwhole
    have hbracket : Closes (.rparen :: rest) := ⟨⟨nofun, nofun⟩, nofun⟩
    have := Derives.expr (.parens (ih.closed hbracket)) hwhole
    simpa using this
  | single h ih => exact fun rest hrest => .single (h.head?_ne id rest) (ih.closed hrest)
  | bracketed _ ih =>
    intro rest _
    have := Derives.bracketed (ih rest)
    simpa using this
  | noArguments => exact fun rest => .noArguments
  | lastArgument h ih =>
    exact fun rest => .lastArgument (h.head?_argument_ne _) (ih _ ⟨⟨nofun, nofun⟩, nofun⟩)
  | @moreArguments ls es ms fs h _ ih ihMore =>
    intro rest
    have hfirst := ih (.comma :: (ms ++ .rparen :: rest)) ⟨⟨nofun, nofun⟩, nofun⟩
    have := Derives.moreArguments (h.head?_argument_ne _) hfirst (ihMore rest)
    simpa using this
  | noItems => exact fun rest => .noItems
  | lastItem h ih =>
    exact fun rest => .lastItem (h.head?_ne id _) (ih.closed ⟨⟨nofun, nofun⟩, nofun⟩)
  | @moreItems ls e ms fs h _ ih ihMore =>
    intro rest
    have hcomma : Closes (.comma :: (ms ++ .rbracket :: rest)) := ⟨⟨nofun, nofun⟩, nofun⟩
    have hfirst := ih.closed hcomma
    have := Derives.moreItems (h.head?_ne id _) hfirst (ihMore rest)
    simpa using this

/-! ### Statements and programs -/

theorem DerivesNames.spelled {ls rest : List Lexeme} {names : List String}
    (h : DerivesNames ls names rest) :
    ∃ front, ls = front ++ .rbracket :: rest ∧ SpellsNames front names := by
  induction h with
  | none => exact ⟨[], rfl, .none⟩
  | @more name _ _ _ _ ih =>
    obtain ⟨front, rfl, hfront⟩ := ih
    exact ⟨.variable name :: .comma :: front, rfl, .more hfront⟩
  | @last name _ => exact ⟨[.variable name], rfl, .last⟩

theorem SpellsNames.read {ls : List Lexeme} {names : List String} (h : SpellsNames ls names)
    (rest : List Lexeme) : DerivesNames (ls ++ .rbracket :: rest) names rest := by
  induction h with
  | none => exact .none
  | last => exact .last
  | more _ ih => exact .more ih

section Statements

variable {ls rest : List Lexeme} {s : Stmt} {e : Expr}

theorem Ends.closes (h : Ends ls) : Closes ls := by
  obtain rfl | h | h := h
  · exact ⟨⟨nofun, nofun⟩, nofun⟩
  · exact ⟨⟨by simp [h], by simp [h]⟩, by simp [h]⟩
  · exact ⟨⟨by simp [h], by simp [h]⟩, by simp [h]⟩

theorem DerivesStatement.spelled (h : DerivesStatement ls s rest) (hrest : Ends rest) :
    ∃ front, ls = front ++ rest ∧ SpellsStatement front s := by
  cases h with
  | @assignEach _ names _ values _ hnames hne hitems hlength =>
    obtain ⟨ns, rfl, hns⟩ := hnames.spelled
    obtain ⟨vs, rfl, hvs⟩ := hitems.takes
    exact ⟨_, by simp, .assignEach hns hne hvs hlength⟩
  | unpack hnames hne _ hvalue =>
    obtain ⟨ns, rfl, hns⟩ := hnames.spelled
    obtain ⟨vs, rfl, hvs, -⟩ := hvalue.takes (by decide) (by decide)
    exact ⟨_, by simp, .unpack hns hne hvs⟩
  | assign hvalue =>
    obtain ⟨vs, rfl, hvs, -⟩ := hvalue.takes (by decide) (by decide)
    exact ⟨_, rfl, .assign hvs⟩
  | @step name op _ _ => exact ⟨[.variable name, .step op], rfl, .step⟩
  | @stepped name op ls _ _ hends hvalue =>
    obtain ⟨front, hfront, hspells, -⟩ :=
      (Derives.expr .step hvalue).takes (by decide) (by decide)
    refine ⟨front, hfront, .result ?_ hspells⟩
    -- the statement would end behind the step
    rintro name' op' rfl
    obtain rfl := (List.cons.inj (List.cons.inj hfront).2).2
    exact hends hrest
  | result hplain hvalue =>
    obtain ⟨front, rfl, hspells, -⟩ := hvalue.takes (by decide) (by decide)
    refine ⟨front, rfl, .result ?_ hspells⟩
    rintro name op rfl
    exact hplain.step name op rest rfl

/-- An expression that is more than a step is read as a result. -/
theorem derivesStatement_result (hrest : Ends rest) (hbracket : (ls ++ rest).head? ≠ some .lbracket)
    (hstep : ∀ name op, ls ≠ [.variable name, .step op])
    (h : Derives (.expr 0) (ls ++ rest) [e] rest) : DerivesStatement (ls ++ rest) (.result e) rest := by
  generalize hall : ls ++ rest = all at *
  by_cases hfront : ∃ name op tail, all = .variable name :: .step op :: tail
  -- a step in front is the whole statement only if the statement ends behind it
  · obtain ⟨name, op, tail, rfl⟩ := hfront
    obtain ⟨hfirst, hwhole⟩ := h
    cases hfirst with
    | name hno => exact absurd rfl (hno op)
    | step =>
      refine .stepped (fun hends => ?_) hwhole
      cases hwhole with
      | stop =>
        have hls : ls ++ rest = [.variable name, .step op] ++ rest := hall
        exact hstep name op (List.append_cancel_right hls)
      | conditional => simp [Ends] at hends
      | binary => simp [Ends] at hends
  · refine .result ⟨hbracket, ?_, fun name op tail heq => hfront ⟨name, op, tail, heq⟩⟩ h
    rintro name op tail rfl
    obtain ⟨hfirst, hwhole⟩ := h
    cases hfirst with
    | name =>
      cases hwhole with
      | stop => simp [Ends] at hrest

theorem SpellsStatement.read (h : SpellsStatement ls s) (hrest : Ends rest) :
    DerivesStatement (ls ++ rest) s rest := by
  cases h with
  | unpack hnames hne hvalue =>
    have := DerivesStatement.unpack (hnames.read _) hne (hvalue.head?_ne id rest)
      (hvalue.reads.closed hrest.closes)
    simpa using this
  | assignEach hnames hne hitems hlength =>
    have := DerivesStatement.assignEach (hnames.read _) hne (hitems.reads rest) hlength
    simpa using this
  | assign hvalue => exact .assign (hvalue.reads.closed hrest.closes)
  | step => exact .step hrest
  | result hstep hvalue =>
    exact derivesStatement_result hrest (hvalue.head?_ne id rest) hstep
      (hvalue.reads.closed hrest.closes)

theorem SpellsStatement.not_ends (h : SpellsStatement ls s) (rest : List Lexeme) :
    ¬Ends (ls ++ rest) := by
  cases h with
  | unpack | assignEach | assign | step => simp [Ends]
  | result _ hvalue =>
    rintro (hends | hends | hends)
    · obtain ⟨l, t, rfl, -⟩ := hvalue.begins
      cases hends
    · exact hvalue.head?_ne id rest hends
    · exact hvalue.head?_ne id rest hends

end Statements

theorem derivesProgram_iff {ls : List Lexeme} {p : Program} :
    DerivesProgram ls p ↔ SpellsProgram ls p := by
  -- statement by statement: a separator or the end behind one shows where it ends
  constructor
  · intro h
    induction h with
    | done => exact .done
    | empty hl _ ih => exact .empty hl ih
    | last _ hs =>
      obtain ⟨front, rfl, hfront⟩ := hs.spelled (.inl rfl)
      rw [List.append_nil]
      exact .last hfront
    | more _ hs hl _ ih =>
      obtain ⟨front, rfl, hfront⟩ := hs.spelled (by simpa [Ends] using hl)
      exact .more hfront hl ih
  · intro h
    induction h with
    | done => exact .done
    | empty hl _ ih => exact .empty hl ih
    | last hs =>
      have hread := hs.read (.inl rfl)
      have hends := hs.not_ends []
      rw [List.append_nil] at hread hends
      exact .last hends hread
    | more hs hl _ ih =>
      exact .more (hs.not_ends _) (hs.read (by simpa [Ends] using hl)) hl ih

/-- A row of lexemes spells at most one program. -/
theorem SpellsProgram.unique {ls : List Lexeme} {p p' : Program} (h : SpellsProgram ls p)
    (h' : SpellsProgram ls p') : p = p' := by
  have hts : lexemesOf (ls.map fun l => ⟨l, 0⟩) = ls := by
    rw [lexemesOf, List.map_map]
    exact List.map_id ls
  rw [← hts, ← derivesProgram_iff, ← @program_ok_iff 0] at h h'
  exact Except.ok.inj (h.symm.trans h')

/-- The parser reads some tokens as a program exactly if their lexemes spell it. -/
theorem parseTokens_ok_iff (stop : Nat) (ts : List Token) (p : Program) :
    (parseTokens stop none ts).outcome = .ok p ↔ SpellsProgram (lexemesOf ts) p := by
  rw [parseTokens_none, program_ok_iff, derivesProgram_iff]

end FieldLang
