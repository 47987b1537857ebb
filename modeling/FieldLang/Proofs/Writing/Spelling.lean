/-
How expressions are spelled, and how their spelling is read back.

* `Expr.normal` : an expression with a minus in front of every literal that has a sign;
* `Expr.Named` : nothing in the expression is out of place, and its names are names;
* `Canonical.spelled` : the lexemes that an expression is written as;
* `derives_spelled` : reading them goes on with the normal form of the expression.

Design notes: reading is by precedence climbing, so what is read of a spelling depends on what
follows it. The induction therefore carries any continuation: reading the spelling of `e` with
some lexemes behind it is going on from `e`, if those lexemes do not bind into `e` from the right.
The least power with which an operator inside `e` is open to its right is the edge of `e`.
-/
import FieldLang.Proofs.Syntax.Grammar
import FieldLang.Proofs.Syntax.Induction
import FieldLang.Proofs.Syntax.Lexing
import FieldLang.Writing.Canonical

namespace FieldLang

mutual

/-- An expression with a minus in front of every literal that has a sign. -/
def Expr.normal : Expr → Expr
  | .number value =>
    if Decimal.signBit value then .negate (.number (-value)) else .number value
  | .variable name => .variable name
  | .binary op lhs rhs => .binary op lhs.normal rhs.normal
  | .negate operand => .negate operand.normal
  | .call f args => .call f (normalAll args)
  | .conditional condition ifTrue ifFalse =>
    .conditional condition.normal ifTrue.normal ifFalse.normal
  | .step name op => .step name op
  | .misplaced display => .misplaced display

/-- The same for expressions in a row. -/
def normalAll : List Expr → List Expr
  | [] => []
  | e :: es => e.normal :: normalAll es

end

mutual

/-- Nothing in the expression is out of place, and its names are names. -/
def Expr.Named : Expr → Prop
  | .number _ => True
  | .variable name => IsName name
  | .binary _ lhs rhs => lhs.Named ∧ rhs.Named
  | .negate operand => operand.Named
  | .call _ args => NamedAll args
  | .conditional condition ifTrue ifFalse =>
    condition.Named ∧ ifTrue.Named ∧ ifFalse.Named
  | .step name _ => IsName name
  | .misplaced _ => False

/-- The same for expressions in a row. -/
def NamedAll : List Expr → Prop
  | [] => True
  | e :: es => e.Named ∧ NamedAll es

end

theorem normalAll_eq_map (es : List Expr) : normalAll es = es.map Expr.normal := by
  induction es with
  | nil => rfl
  | cons e es ih => rw [normalAll, ih, List.map_cons]

theorem namedAll_iff {es : List Expr} : NamedAll es ↔ ∀ e ∈ es, e.Named := by
  induction es with
  | nil => simp [NamedAll]
  | cons e es ih => simp [NamedAll, ih]

namespace Canonical

open Writing

/-- The rank that an expression is written with. -/
def rank : Expr → Nat
  | .number value => if Decimal.signBit value then signPower else atomRank
  | .variable _ | .call _ _ | .step _ _ => atomRank
  | .negate _ => signPower
  | .binary op _ _ => op.precedence
  | .conditional _ _ _ => conditionalRank
  | .misplaced _ => 0

/-- The least power with which an operator in a written expression is open to its right. -/
def edge : Expr → Nat
  | .number value => if Decimal.signBit value then signPower else atomRank
  | .variable _ | .call _ _ | .step _ _ => atomRank
  | .negate _ => signPower
  | .binary op _ _ => op.rightPower
  | .conditional _ _ _ => branchPower
  | .misplaced _ => 0

/-- Lexemes between round brackets if something asks for them. -/
def bracketedIf (asked : Bool) (ls : List Lexeme) : List Lexeme :=
  if asked then .lparen :: (ls ++ [.rparen]) else ls

mutual

/-- The lexemes that an expression is written as. -/
def spelled : Expr → List Lexeme
  | .number value =>
    if Decimal.signBit value then [.operator .sub, .number (-value)] else [.number value]
  | .variable name => [.variable name]
  | .binary op lhs rhs =>
    bracketedIf (rank lhs < op.leftPower) (spelled lhs) ++
      .operator op :: bracketedIf (rank rhs < op.rightPower) (spelled rhs)
  | .negate operand =>
    .operator .sub ::
      bracketedIf (startsWithMinus operand) (bracketedIf (rank operand < signPower) (spelled operand))
  | .call f args =>
    .function f :: .lparen ::
      ((if f.variadic then .lbracket :: (spelledAll args ++ [.rbracket]) else spelledAll args)
        ++ [.rparen])
  | .conditional condition ifTrue ifFalse =>
    bracketedIf (rank condition < conditionalRank + 1) (spelled condition) ++
      .question :: (spelled ifTrue ++ .colon ::
        bracketedIf (rank ifFalse < conditionalRank) (spelled ifFalse))
  | .step name op => [.variable name, .step op]
  | .misplaced _ => []

/-- The lexemes of expressions with commas between them. -/
def spelledAll : List Expr → List Lexeme
  | [] => []
  | e :: es => spelled e ++ spelledMore es

/-- The lexemes of further expressions, each behind a comma. -/
def spelledMore : List Expr → List Lexeme
  | [] => []
  | e :: es => .comma :: (spelled e ++ spelledMore es)

end

/-- Rows of lexemes with a comma between any two of them. -/
def commaSeparated : List (List Lexeme) → List Lexeme
  | [] => []
  | first :: rest => first ++ rest.flatMap (.comma :: ·)

theorem spelledAll_eq (es : List Expr) : spelledAll es = commaSeparated (es.map spelled) := by
  have hmore : ∀ es : List Expr, spelledMore es = (es.map spelled).flatMap (.comma :: ·) := by
    intro es
    induction es with
    | nil => rfl
    | cons e es ih => simp [spelledMore, ih]
  cases es with
  | nil => rfl
  | cons e es => rw [spelledAll, hmore, List.map_cons, commaSeparated]

/-! ### What a spelling begins with -/

/-- A lexeme that an expression can begin with. -/
def opens : Lexeme → Bool
  | .number _ | .variable _ | .function _ | .lparen | .operator .sub => true
  | _ => false

theorem bracketedIf_opens (asked : Bool) {ls : List Lexeme} (h : ∃ l rest, ls = l :: rest ∧ opens l) :
    ∃ l rest, bracketedIf asked ls = l :: rest ∧ opens l := by
  cases asked with
  | false => exact h
  | true => exact ⟨_, _, rfl, rfl⟩

/-- A spelling begins with a lexeme that an expression can begin with. -/
theorem spelled_opens {e : Expr} (h : e.Named) :
    ∃ l rest, spelled e = l :: rest ∧ opens l = true := by
  induction e using Expr.induction with
  | number value =>
    rw [spelled]
    split
    · exact ⟨_, _, rfl, rfl⟩
    · exact ⟨_, _, rfl, rfl⟩
  | name name => exact ⟨_, _, by rw [spelled], rfl⟩
  | binary op lhs rhs ihl _ =>
    obtain ⟨l, rest, hl, ho⟩ := bracketedIf_opens (rank lhs < op.leftPower) (ihl h.1)
    rw [spelled, hl]
    exact ⟨l, _, rfl, ho⟩
  | negate operand _ => exact ⟨_, _, by rw [spelled], rfl⟩
  | call f args _ => exact ⟨_, _, by rw [spelled], rfl⟩
  | conditional c t f ihc _ _ =>
    obtain ⟨l, rest, hl, ho⟩ := bracketedIf_opens (rank c < conditionalRank + 1) (ihc h.1)
    rw [spelled, hl]
    exact ⟨l, _, rfl, ho⟩
  | step name op => exact ⟨_, _, by rw [spelled], rfl⟩
  | misplaced display => exact h.elim

theorem spelled_head?_ne {e : Expr} (h : e.Named) {l : Lexeme} (hl : opens l = false)
    (rest : List Lexeme) : (spelled e ++ rest).head? ≠ some l := by
  obtain ⟨first, ls, hls, ho⟩ := spelled_opens h
  rw [hls]
  rintro ⟨⟩
  rw [hl] at ho
  cases ho

/-! ### Ranks and edges -/

theorem rank_le_edge (e : Expr) : rank e ≤ edge e := by
  cases e with
  | binary op lhs rhs => exact Nat.min_le_right _ _
  | _ => exact Nat.le_refl _

/-- Every operator is written with the power of its left side on the left, and with that of its
right side on the right. -/
theorem left_eq (op : BinOp) :
    (if op.rightAssociative then op.precedence + 1 else op.precedence) = op.leftPower := by
  cases op <;> rfl

theorem right_eq (op : BinOp) :
    (if op.rightAssociative then op.precedence else op.precedence + 1) = op.rightPower := by
  cases op <;> rfl

/-- An operator does not bind into a left operand that is written without brackets: of two
operators of one rank the left one is closed, unless both associate to the right. -/
theorem leftPower_lt_edge {op : BinOp} {e : Expr} (h : op.leftPower ≤ rank e) :
    op.leftPower < edge e := by
  cases e with
  | binary op' lhs rhs =>
    revert h
    show op.leftPower ≤ op'.precedence → op.leftPower < op'.rightPower
    cases op <;> cases op' <;> decide
  | number value =>
    rw [edge]
    split
    · exact op.leftPower_lt_signPower
    · exact Nat.lt_trans (op.leftPower_lt_signPower) (by decide)
  | negate operand => exact op.leftPower_lt_signPower
  | conditional c t f =>
    revert h
    show op.leftPower ≤ conditionalRank → op.leftPower < branchPower
    cases op <;> decide
  | misplaced display =>
    revert h
    show op.leftPower ≤ 0 → op.leftPower < 0
    cases op <;> decide
  | _ => exact Nat.lt_trans (op.leftPower_lt_signPower) (show signPower < atomRank by decide)

theorem conditionPower_lt_edge {e : Expr} (h : conditionalRank + 1 ≤ rank e) :
    conditionPower < edge e := by
  cases e with
  | binary op lhs rhs =>
    show conditionPower < op.rightPower
    cases op <;> decide
  | number value =>
    rw [edge]
    split <;> decide
  | conditional c t f => exact absurd h (show ¬conditionalRank + 1 ≤ conditionalRank by decide)
  | misplaced display => exact absurd h (show ¬conditionalRank + 1 ≤ 0 by decide)
  | negate operand => exact show conditionPower < signPower by decide
  | _ => exact show conditionPower < atomRank by decide

theorem rank_of_startsWithMinus {e : Expr} (h : startsWithMinus e = true) : rank e = signPower := by
  cases e with
  | negate operand => rfl
  | number value => exact if_pos h
  | _ => cases h

/-! ### Reading a spelling back -/

/-- The lexemes do not make a step of a variable before them. -/
def NoStep (rest : List Lexeme) : Prop := ∀ op, rest.head? ≠ some (.step op)

/-- Reading the spelling of an expression with something behind it is going on from its normal
form. -/
def ReadsBack (e : Expr) : Prop :=
  ∀ least rest whole after, least ≤ rank e → Stops (edge e) rest → NoStep rest →
    Derives (.operators least e.normal) rest [whole] after →
    Derives (.expr least) (spelled e ++ rest) [whole] after

/-- Read as a whole, it is the normal form. -/
theorem ReadsBack.whole {e : Expr} (h : ReadsBack e) {least : Nat} (rest : List Lexeme)
    (hleast : least ≤ rank e) (hstops : Stops least rest) (hstep : NoStep rest) :
    Derives (.expr least) (spelled e ++ rest) [e.normal] rest :=
  h _ _ _ _ hleast (hstops.mono (Nat.le_trans hleast (rank_le_edge e))) hstep (.stop hstops)

/-- In brackets it can stand anywhere. -/
theorem ReadsBack.brackets {e : Expr} (h : ReadsBack e) {least : Nat} {rest after : List Lexeme}
    {whole : Expr} (hd : Derives (.operators least e.normal) rest [whole] after) :
    Derives (.expr least) (.lparen :: (spelled e ++ [.rparen]) ++ rest) [whole] after := by
  have hinner : Derives (.expr 0) (spelled e ++ .rparen :: rest) [e.normal] (.rparen :: rest) :=
    h.whole _ (Nat.zero_le _) ⟨by simp, by simp⟩ (by simp [NoStep])
  refine .expr ?_ hd
  simpa using Derives.parens hinner

/-- An operand is read back where it is written with brackets unless it binds tightly enough. -/
theorem ReadsBack.within {e : Expr} (h : ReadsBack e) {least k : Nat} {rest after : List Lexeme}
    {whole : Expr} (hleast : least ≤ k) (hstops : k ≤ rank e → Stops (edge e) rest)
    (hstep : NoStep rest) (hd : Derives (.operators least e.normal) rest [whole] after) :
    Derives (.expr least) (bracketedIf (rank e < k) (spelled e) ++ rest) [whole] after := by
  by_cases hk : rank e < k
  · rw [bracketedIf, if_pos (by simpa using hk)]
    exact h.brackets hd
  · rw [bracketedIf, if_neg (by simpa using hk)]
    exact h _ _ _ _ (by omega) (hstops (by omega)) hstep hd

/-- The lexemes of further items end at a comma or where the row ends. -/
theorem stops_spelledMore {es : List Expr} {l : Lexeme} {rest : List Lexeme} {k : Nat}
    (hl : l = .rbracket ∨ l = .rparen) : Stops k (spelledMore es ++ l :: rest) := by
  cases es with
  | nil => rcases hl with rfl | rfl <;> exact ⟨by simp [spelledMore], by simp [spelledMore]⟩
  | cons e es => exact ⟨by simp [spelledMore], by simp [spelledMore]⟩

theorem noStep_spelledMore {es : List Expr} {l : Lexeme} {rest : List Lexeme}
    (hl : l = .rbracket ∨ l = .rparen) : NoStep (spelledMore es ++ l :: rest) := by
  cases es with
  | nil => rcases hl with rfl | rfl <;> simp [NoStep, spelledMore]
  | cons e es => simp [NoStep, spelledMore]

/-- An item is read up to the comma or bracket behind it. -/
theorem item_readBack {e : Expr} (h : ReadsBack e) (es : List Expr) {l : Lexeme}
    (rest : List Lexeme) (hl : l = .rbracket ∨ l = .rparen) :
    Derives (.expr 0) (spelled e ++ (spelledMore es ++ l :: rest)) [e.normal]
      (spelledMore es ++ l :: rest) :=
  h.whole _ (Nat.zero_le _) (stops_spelledMore hl) (noStep_spelledMore hl)

/-- Items between square brackets are read back. -/
theorem items_readBack {e : Expr} {es : List Expr} (rest : List Lexeme)
    (h : ∀ x ∈ e :: es, x.Named ∧ ReadsBack x) :
    Derives .items (spelled e ++ (spelledMore es ++ .rbracket :: rest))
      (e.normal :: normalAll es) rest := by
  induction es generalizing e with
  | nil =>
    obtain ⟨hn, hr⟩ := h e (List.mem_cons_self ..)
    exact .lastItem (spelled_head?_ne hn rfl _) (item_readBack hr [] rest (.inl rfl))
  | cons e' es ih =>
    obtain ⟨hn, hr⟩ := h e (List.mem_cons_self ..)
    have hmore := ih fun x hx => h x (List.mem_cons_of_mem _ hx)
    have hfirst := item_readBack hr (e' :: es) rest (.inl rfl)
    rw [spelledMore, List.cons_append, List.append_assoc] at hfirst ⊢
    exact .moreItems (spelled_head?_ne hn rfl _) hfirst hmore

/-- A spelling is no list in square brackets. -/
theorem argument_single {e e' : Expr} (h : e.Named) {more rest : List Lexeme}
    (hd : Derives (.expr 0) (spelled e ++ more) [e'] rest) :
    Derives .argument (spelled e ++ more) [e'] rest :=
  .single (spelled_head?_ne h rfl _) hd

/-- Arguments between round brackets are read back. -/
theorem arguments_readBack {e : Expr} {es : List Expr} (rest : List Lexeme)
    (h : ∀ x ∈ e :: es, x.Named ∧ ReadsBack x) :
    Derives .arguments (spelled e ++ (spelledMore es ++ .rparen :: rest))
      (e.normal :: normalAll es) rest := by
  induction es generalizing e with
  | nil =>
    obtain ⟨hn, hr⟩ := h e (List.mem_cons_self ..)
    exact .lastArgument (spelled_head?_ne hn rfl _)
      (argument_single hn (item_readBack hr [] rest (.inr rfl)))
  | cons e' es ih =>
    obtain ⟨hn, hr⟩ := h e (List.mem_cons_self ..)
    have hmore := ih fun x hx => h x (List.mem_cons_of_mem _ hx)
    have hfirst := item_readBack hr (e' :: es) rest (.inr rfl)
    rw [spelledMore, List.cons_append, List.append_assoc] at hfirst ⊢
    exact .moreArguments (spelled_head?_ne hn rfl _) (argument_single hn hfirst) hmore

/-- The spelling of any expression is read back. -/
theorem derives_spelled {e : Expr} (h : e.Named) : ReadsBack e := by
  induction e using Expr.induction with
  | number value =>
    intro least rest whole after _ _ hstep hd
    rw [spelled]
    rw [Expr.normal] at hd
    split
    · next hs =>
      -- the normal form of a negative number is a sign in front of its magnitude
      rw [if_pos hs] at hd
      refine .expr (.minus ?_) hd
      exact .expr .number (.stop (Stops.of_signPower_le (Nat.le_refl _) rest))
    · next hs =>
      rw [if_neg hs] at hd
      exact .expr .number hd
  | name name =>
    intro least rest whole after _ _ hstep hd
    rw [spelled]
    exact .expr (.name hstep) hd
  | binary op lhs rhs ihl ihr =>
    obtain ⟨hl, hr⟩ := h
    intro least rest whole after hleast hstops hstep hd
    have hright : Derives (.expr op.rightPower)
        (bracketedIf (rank rhs < op.rightPower) (spelled rhs) ++ rest) [rhs.normal] rest :=
      (ihr hr).within (Nat.le_refl _)
        (fun hk => hstops.mono (Nat.le_trans hk (rank_le_edge rhs))) hstep (.stop hstops)
    -- the reader goes on behind the left operand, so the right one is read first
    have hleft : least ≤ op.leftPower := Nat.le_trans hleast (Nat.min_le_left _ _)
    have hwhole := Derives.binary hleft hright hd
    rw [spelled, List.append_assoc, List.cons_append]
    refine (ihl hl).within hleft (fun hk => ⟨by simp, ?_⟩) (by simp [NoStep]) hwhole
    intro op' hop
    cases hop
    exact leftPower_lt_edge hk
  | negate operand ih =>
    intro least rest whole after _ _ hstep hd
    have hstops : Stops signPower rest := Stops.of_signPower_le (Nat.le_refl _) rest
    have hstop : Derives (.operators signPower operand.normal) rest [operand.normal] rest :=
      .stop hstops
    rw [spelled, List.cons_append]
    refine .expr (.minus ?_) hd
    -- an operand with a sign of its own is written in brackets, so that no step is read
    by_cases hs : startsWithMinus operand = true
    · rw [bracketedIf, if_pos hs, rank_of_startsWithMinus hs, bracketedIf, if_neg (by simp)]
      exact (ih h).brackets hstop
    · rw [bracketedIf, if_neg hs]
      exact (ih h).within (Nat.le_refl _)
        (fun hk => hstops.mono (Nat.le_trans hk (rank_le_edge operand))) hstep hstop
  | call f args ih =>
    intro least rest whole after _ _ hstep hd
    have hargs : ∀ e ∈ args, e.Named ∧ ReadsBack e := fun e he =>
      ⟨namedAll_iff.mp h e he, ih e he (namedAll_iff.mp h e he)⟩
    rw [spelled, List.cons_append, List.cons_append]
    refine .expr (.call ?_) hd
    cases args with
    | nil =>
      split
      · exact .lastArgument (by simp) (.bracketed .noItems)
      · exact .noArguments
    | cons e es =>
      split
      · refine .lastArgument (by simp) ?_
        simpa [spelledAll, normalAll] using .bracketed (items_readBack (.rparen :: rest) hargs)
      · simpa [spelledAll, normalAll] using arguments_readBack rest hargs
  | conditional c t f ihc iht ihf =>
    obtain ⟨hc, ht, hf⟩ := h
    intro least rest whole after hleast hstops hstep hd
    have hfalse : Derives (.expr branchPower)
        (bracketedIf (rank f < conditionalRank) (spelled f) ++ rest) [f.normal] rest :=
      (ihf hf).within (Nat.le_refl _)
        (fun hk => hstops.mono (Nat.le_trans hk (rank_le_edge f))) hstep (.stop hstops)
    have htrue := (iht ht).whole (.colon ::
      (bracketedIf (rank f < conditionalRank) (spelled f) ++ rest)) (Nat.zero_le _)
      ⟨by simp, by simp⟩ (by simp [NoStep])
    have hrank : least ≤ conditionalRank := hleast
    have hleast' : least ≤ conditionPower := Nat.le_trans hrank (by decide)
    have hwhole := Derives.conditional hleast' htrue hfalse hd
    rw [spelled, List.append_assoc, List.cons_append, List.append_assoc, List.cons_append]
    refine (ihc hc).within (Nat.le_trans hrank (by decide)) (fun hk => ⟨fun _ => ?_, by simp⟩)
      (by simp [NoStep]) hwhole
    exact conditionPower_lt_edge hk
  | step name op =>
    intro least rest whole after _ _ _ hd
    rw [spelled]
    exact .expr .step hd
  | misplaced display => exact h.elim

end Canonical

end FieldLang