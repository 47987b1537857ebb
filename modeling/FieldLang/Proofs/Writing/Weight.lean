/-
The weight of the lexemes that spell a program.

* `weight` : brackets and plus signs, less two for every plain assignment;
* `Spot.run` : whether no sign stands directly behind another one;
* `Layered.weight_le` : a row that spells an expression weighs no less than the spelling that it is
  written with;
* `SpellsProgram.weight_le` : the same for programs.

Design notes: the grammar drops round brackets and plus signs in front of operands, so a program is
spelled by rows with more of them. An assignment through an operator is written out, which takes a
plus and a pair of brackets at most. Two signs in a row spell a negation in a negation without the
brackets that it is written with, which is why such rows are left out.
-/
import FieldLang.Proofs.Syntax.Layers
import FieldLang.Proofs.Writing.Sentences

namespace FieldLang

open Canonical Writing

/-! ### Weights -/

/-- The weight of a lexeme. -/
def Lexeme.weight : Lexeme → Int
  | .lparen | .operator .add => 1
  | .assign .plain => -2
  | _ => 0

/-- The weight of a row of lexemes. -/
def weight (ls : List Lexeme) : Int := (ls.map Lexeme.weight).sum

section Weights

variable {l : Lexeme} {ls ms : List Lexeme}

@[simp]
theorem weight_nil : weight [] = 0 := rfl

@[simp]
theorem weight_cons : weight (l :: ls) = l.weight + weight ls := by simp [weight]

@[simp]
theorem weight_append : weight (ls ++ ms) = weight ls + weight ms := by simp [weight]

@[simp]
theorem weight_bracketedIf (asked : Bool) :
    weight (bracketedIf asked ls) = weight ls + if asked then 1 else 0 := by
  cases asked with
  | false => simp [bracketedIf]
  | true =>
    simp [bracketedIf, Lexeme.weight]
    omega

theorem weight_spelledAll (es : List Expr) :
    weight (spelledAll es) = (es.map fun e => weight (spelled e)).sum := by
  have hmore : ∀ es : List Expr,
      weight (spelledMore es) = (es.map fun e => weight (spelled e)).sum := by
    intro es
    induction es with
    | nil => rfl
    | cons e es ih => simp [spelledMore, ih, Lexeme.weight]
  cases es with
  | nil => rfl
  | cons e es => simp [spelledAll, hmore]

theorem weight_commaSeparated (lss : List (List Lexeme)) :
    weight (commaSeparated lss) = (lss.map weight).sum := by
  cases lss with
  | nil => rfl
  | cons first rest =>
    rw [commaSeparated, weight_append, List.map_cons, List.sum_cons]
    congr 1
    induction rest with
    | nil => rfl
    | cons ls rest ih => simp [ih, Lexeme.weight]

theorem weight_spelledNames (names : List String) : weight (spelledNames names) = 0 := by
  induction names with
  | nil => rfl
  | cons name names ih =>
    cases names with
    | nil => rfl
    | cons name' names => simpa [spelledNames, Lexeme.weight] using ih

theorem SpellsNames.weight_eq {names : List String} (h : SpellsNames ls names) : weight ls = 0 := by
  induction h with
  | none => rfl
  | last => rfl
  | more _ ih => simpa [Lexeme.weight] using ih

theorem weight_spelled_number (value : Float) : weight (spelled (.number value)) = 0 := by
  rw [spelled]
  split <;> rfl

end Weights

/-- A program weighs what its statements weigh. -/
theorem weight_spelledProgram (p : Program) :
    weight (spelledProgram p) = (p.map fun s => weight (spelledStatement s)).sum := by
  rw [spelledProgram, weight_commaSeparated, List.map_append, List.sum_append, List.map_map]
  cases endsEmpty p <;> simp [Function.comp_def]

/-! ### Signs -/

/-- What a lexeme stands behind: nothing that it belongs to, a sign, or an operand. -/
inductive Spot where
  | start | sign | operand

/-- The place behind a lexeme. A second sign has none. -/
def Spot.step? (s : Spot) : Lexeme → Option Spot
  | .operator .sub =>
    match s with
    | start => some sign
    | sign => none
    | operand => some start
  | .number _ | .variable _ | .step _ | .rparen | .rbracket => some operand
  | _ => some start

/-- The place behind a row of lexemes, if no sign in it stands directly behind another one. -/
def Spot.run (s : Spot) (ls : List Lexeme) : Option Spot := ls.foldlM Spot.step? s

section Places

variable {s : Spot} {l : Lexeme} {ls ms : List Lexeme}

@[simp]
theorem Spot.run_cons : s.run (l :: ls) = (s.step? l).bind (·.run ls) := rfl

@[simp]
theorem Spot.run_append : s.run (ls ++ ms) = (s.run ls).bind (·.run ms) := by
  induction ls generalizing s with
  | nil => rfl
  | cons l ls ih =>
    rw [List.cons_append, run_cons, run_cons, Option.bind_assoc]
    congr 1
    funext s'
    exact ih

/-- Behind an operand a minus is an operator. -/
theorem Spot.step?_operator (op : BinOp) : Spot.operand.step? (.operator op) = some .start := by
  cases op <;> rfl

end Places

/-- A literal has no sign. -/
def Lexeme.Unsigned : Lexeme → Prop
  | .number value => Decimal.signBit value = false
  | _ => True

/-! ### Expressions -/

/-- The least rank of an expression that is written without brackets in a layer. -/
def Layer.least (l : Layer) : Nat := Nat.min l.floor l.ceiling

namespace Layer

theorem least_mono {l l' : Layer} (h : l.tighter? = some l') : l.least ≤ l'.least := by
  cases l <;> cases h <;> decide

theorem least_layer (op : BinOp) : op.layer.least = op.precedence := by
  cases op <;> rfl

/-- The right side of an operator is of the next layer. -/
theorem rightPower_le_least {op : BinOp} {l : Layer} (hpow : op ≠ .pow)
    (h : op.layer.tighter? = some l) : op.rightPower ≤ l.least := by
  cases op with
  | pow => exact absurd rfl hpow
  | _ => cases h; decide

theorem leftPower_le_least {op : BinOp} (hpow : op ≠ .pow) : op.leftPower ≤ op.layer.least := by
  cases op with
  | pow => exact absurd rfl hpow
  | _ => decide

end Layer

/-- What a row of lexemes weighs that spells something, and that leads from one place to another: an
expression leads to an operand, and weighs no less than it does with the brackets that its layer asks
for, and no less than a negation in brackets behind a sign. -/
def Category.Weighs (s s' : Spot) (ls : List Lexeme) (es : List Expr) : Category → Prop
  | .layer l => s' = .operand ∧ ∀ e, es = [e] →
      weight (bracketedIf (rank e < l.least) (spelled e)) ≤ weight ls ∧
        (s = .sign → startsWithMinus e = true → weight (spelled e) + 1 ≤ weight ls)
  | _ => weight (spelledAll es) ≤ weight ls

/-- An expression in a looser place needs no more brackets. -/
theorem weight_bracketedIf_mono {e : Expr} {k k' : Nat} (h : k ≤ k') :
    weight (bracketedIf (rank e < k) (spelled e)) ≤ weight (bracketedIf (rank e < k') (spelled e)) := by
  simp only [weight_bracketedIf, decide_eq_true_eq]
  split <;> split <;> omega

theorem weight_le_bracketedIf (asked : Bool) (ls : List Lexeme) :
    weight ls ≤ weight (bracketedIf asked ls) := by
  rw [weight_bracketedIf]
  split <;> omega

/-- A row in two parts leads to a place behind the first one, and on from there. -/
theorem Spot.run_append_eq {s s' : Spot} {ls ms : List Lexeme} (h : s.run (ls ++ ms) = some s') :
    ∃ s₁, s.run ls = some s₁ ∧ s₁.run ms = some s' := by
  rw [run_append] at h
  exact Option.bind_eq_some_iff.mp h

section Layers

variable {s s' : Spot} {l : Layer} {ls : List Lexeme} {e : Expr}

/-- Brackets around an expression or a plus in front of it make up for the brackets that it is written
with. -/
theorem weighs_of_lt (h : weight (spelled e) + 1 ≤ weight ls) :
    (Category.layer l).Weighs s .operand ls [e] := by
  refine ⟨rfl, fun e' he' => ?_⟩
  cases he'
  refine ⟨?_, fun _ _ => h⟩
  rw [weight_bracketedIf]
  split <;> omega

/-- The spelling of an expression that is written without brackets, and is no negation, is what
counts. -/
theorem weighs_of_le (hrank : l.least ≤ rank e) (hminus : startsWithMinus e = false)
    (h : weight (spelled e) ≤ weight ls) : (Category.layer l).Weighs s .operand ls [e] := by
  refine ⟨rfl, fun e' he' => ?_⟩
  cases he'
  refine ⟨?_, fun _ hm => absurd hm (by simp [hminus])⟩
  rw [bracketedIf, if_neg (by simpa using hrank)]
  exact h

theorem Category.Weighs.operand (h : (Category.layer l).Weighs s s' ls [e]) : s' = .operand := h.1

theorem Category.Weighs.spelled (h : (Category.layer l).Weighs s s' ls [e]) :
    weight (spelled e) ≤ weight ls :=
  (weight_le_bracketedIf _ _).trans (h.2 e rfl).1

theorem Category.Weighs.within (h : (Category.layer l).Weighs s s' ls [e]) {k : Nat}
    (hk : k ≤ l.least) : weight (bracketedIf (rank e < k) (Canonical.spelled e)) ≤ weight ls :=
  (weight_bracketedIf_mono hk).trans (h.2 e rfl).1

/-- An operator between operands, each of a layer that needs no more brackets than its side. -/
theorem Category.Weighs.binary {op : BinOp} {l' l'' : Layer} {ms : List Lexeme} {e' : Expr}
    (hl : l.least ≤ op.precedence) (hleft : op.leftPower ≤ l'.least)
    (hright : op.rightPower ≤ l''.least) (h : (Category.layer l').Weighs s .operand ls [e])
    (h' : (Category.layer l'').Weighs .start .operand ms [e']) :
    (Category.layer l).Weighs s .operand (ls ++ .operator op :: ms) [.binary op e e'] := by
  refine weighs_of_le hl rfl ?_
  have hlhs := h.within hleft
  have hrhs := h'.within hright
  simp only [Canonical.spelled, weight_append, weight_cons]
  omega

/-- A sign in front of an expression: a negation behind it is in brackets or has a plus in front of
it. -/
theorem Category.Weighs.minus (h : (Category.layer .unary).Weighs .sign .operand ls [e]) :
    (Category.layer .unary).Weighs .start .operand (.operator .sub :: ls) [.negate e] := by
  refine ⟨rfl, fun e' he' => ?_⟩
  cases he'
  refine ⟨?_, fun hsign => by cases hsign⟩
  have hrank : ¬rank (.negate e) < Layer.unary.least :=
    Nat.not_lt.mpr (show Layer.unary.least ≤ signPower by decide)
  rw [bracketedIf, if_neg (by simpa using hrank), Canonical.spelled, weight_cons, weight_cons]
  refine Int.add_le_add_left ?_ _
  by_cases hm : startsWithMinus e = true
  · have hweight := (h.2 e rfl).2 rfl hm
    simp only [weight_bracketedIf, hm, rank_of_startsWithMinus hm]
    simpa using hweight
  · rw [bracketedIf, if_neg hm]
    exact h.within (by decide)

end Layers

/-- A row that spells an expression, and in which no sign stands behind another one, weighs no less
than the spelling that the expression is written with. -/
theorem Layered.weighs {c : Category} {ls : List Lexeme} {es : List Expr} (h : Layered c ls es) :
    ∀ s s' : Spot, s ≠ .operand → (∀ l ∈ ls, l.Unsigned) → s.run ls = some s' →
      c.Weighs s s' ls es := by
  -- the place in front is left open in the induction, since a part may stand behind a sign or not
  induction h with
  | @tighter l l' ls e htighter _ ih =>
    intro s s' hs hu hrun
    obtain ⟨hs', hweight⟩ := ih s s' hs hu hrun
    refine ⟨hs', fun e' he' => ?_⟩
    obtain ⟨hbracketed, hminus⟩ := hweight e' he'
    exact ⟨(weight_bracketedIf_mono (Layer.least_mono htighter)).trans hbracketed, hminus⟩
  | @conditional cs c ts t fs f _ _ _ ihc iht ihf =>
    intro s s' hs hu hrun
    simp only [List.forall_mem_append, List.forall_mem_cons] at hu
    obtain ⟨s₁, hcs, hrun⟩ := Spot.run_append_eq hrun
    obtain ⟨s₂, hts, hrun⟩ := Spot.run_append_eq (s := .start) hrun
    have hc := ihc s s₁ hs hu.1 hcs
    have ht := iht .start s₂ (by simp) hu.2.2.1 hts
    have hf := ihf .start s' (by simp) hu.2.2.2.2 hrun
    obtain rfl := hf.operand
    refine weighs_of_le (show Layer.ternary.least ≤ conditionalRank by decide) rfl ?_
    have hcondition := hc.within (show conditionalRank + 1 ≤ Layer.or.least by decide)
    have hfalse := hf.within (show conditionalRank ≤ Layer.ternary.least by decide)
    have htrue := ht.spelled
    simp only [Canonical.spelled, weight_append, weight_cons]
    omega
  | @left op l as a bs b hpow htighter _ _ iha ihb =>
    intro s s' hs hu hrun
    simp only [List.forall_mem_append, List.forall_mem_cons] at hu
    obtain ⟨s₁, has, hrun⟩ := Spot.run_append_eq hrun
    have ha := iha s s₁ hs hu.1 has
    obtain rfl := ha.operand
    -- the left side leads to an operand, so a minus behind it is no sign
    rw [Spot.run_cons, Spot.step?_operator] at hrun
    have hb := ihb .start s' (by simp) hu.2.2 hrun
    obtain rfl := hb.operand
    exact ha.binary (Nat.le_of_eq (Layer.least_layer op)) (Layer.leftPower_le_least hpow)
      (Layer.rightPower_le_least hpow htighter) hb
  | @pow as a bs b _ _ iha ihb =>
    intro s s' hs hu hrun
    simp only [List.forall_mem_append, List.forall_mem_cons] at hu
    obtain ⟨s₁, has, hrun⟩ := Spot.run_append_eq hrun
    have ha := iha s s₁ hs hu.1 has
    obtain rfl := ha.operand
    have hb := ihb .start s' (by simp) hu.2.2 hrun
    obtain rfl := hb.operand
    exact ha.binary (show Layer.power.least ≤ BinOp.pow.precedence by decide)
      (show BinOp.pow.leftPower ≤ Layer.unary.least by decide)
      (show BinOp.pow.rightPower ≤ Layer.power.least by decide) hb
  | @minus ls e _ ih =>
    intro s s' hs hu hrun
    simp only [List.forall_mem_cons] at hu
    cases s with
    | operand => exact absurd rfl hs
    | sign => cases hrun
    | start =>
      have he := ih .sign s' (by simp) hu.2 hrun
      obtain rfl := he.operand
      exact he.minus
  | @plus ls e _ ih =>
    intro s s' hs hu hrun
    simp only [List.forall_mem_cons] at hu
    have he := ih .start s' (by simp) hu.2 hrun
    obtain rfl := he.operand
    have hspelled := he.spelled
    refine weighs_of_lt ?_
    simp only [weight_cons, Lexeme.weight]
    omega
  | @number value =>
    intro s s' hs hu hrun
    cases hrun
    refine weighs_of_le ?_ (hu _ List.mem_cons_self) (Int.le_of_eq (weight_spelled_number value))
    rw [rank]
    split <;> decide
  | name =>
    intro s s' hs hu hrun
    cases hrun
    exact weighs_of_le (show Layer.primary.least ≤ atomRank by decide) rfl (Int.le_refl _)
  | step =>
    intro s s' hs hu hrun
    cases hrun
    exact weighs_of_le (show Layer.primary.least ≤ atomRank by decide) rfl (Int.le_refl _)
  | @call f ls args _ ih =>
    intro s s' hs hu hrun
    simp only [List.forall_mem_append, List.forall_mem_cons] at hu
    obtain ⟨s₁, hls, hrun⟩ := Spot.run_append_eq (s := .start) hrun
    cases hrun
    have hargs := ih .start s₁ (by simp) hu.2.2.1 hls
    refine weighs_of_le (show Layer.primary.least ≤ atomRank by decide) rfl ?_
    have hweight : weight (spelledAll args) ≤ weight ls := hargs
    cases hv : f.variadic <;> simpa [Canonical.spelled, hv, Lexeme.weight] using hweight
  -- the brackets outweigh any that the expression is written with
  | @parens ls e _ ih =>
    intro s s' hs hu hrun
    simp only [List.forall_mem_append, List.forall_mem_cons] at hu
    obtain ⟨s₁, hls, hrun⟩ := Spot.run_append_eq (s := .start) hrun
    cases hrun
    have hspelled := (ih .start s₁ (by simp) hu.2.1 hls).spelled
    refine weighs_of_lt ?_
    simp only [weight_append, weight_cons, Lexeme.weight, weight_nil]
    omega
  | @single ls e _ ih =>
    intro s s' hs hu hrun
    have hspelled := (ih s s' hs hu hrun).spelled
    simpa [Category.Weighs, weight_spelledAll] using hspelled
  | @bracketed ls es _ ih =>
    intro s s' hs hu hrun
    simp only [List.forall_mem_append, List.forall_mem_cons] at hu
    obtain ⟨s₁, hls, -⟩ := Spot.run_append_eq (s := .start) hrun
    have hitems : weight (spelledAll es) ≤ weight ls := ih .start s₁ (by simp) hu.2.1 hls
    simpa [Category.Weighs, Lexeme.weight] using hitems
  | noArguments => exact fun _ _ _ _ _ => Int.le_refl _
  | lastArgument _ ih => exact ih
  -- commas weigh nothing, so rows weigh what their members do
  | @moreArguments ls es ms fs _ _ ih ih' =>
    intro s s' hs hu hrun
    simp only [List.forall_mem_append, List.forall_mem_cons] at hu
    obtain ⟨s₁, hls, hrun⟩ := Spot.run_append_eq hrun
    have hfirst : weight (spelledAll es) ≤ weight ls := ih s s₁ hs hu.1 hls
    have hmore : weight (spelledAll fs) ≤ weight ms := ih' .start s' (by simp) hu.2.2 hrun
    rw [weight_spelledAll] at hfirst hmore
    simp only [Category.Weighs, weight_spelledAll, List.map_append, List.sum_append, weight_append,
      weight_cons, Lexeme.weight]
    omega
  | noItems => exact fun _ _ _ _ _ => Int.le_refl _
  | @lastItem ls e _ ih =>
    intro s s' hs hu hrun
    have hspelled := (ih s s' hs hu hrun).spelled
    simpa [Category.Weighs, weight_spelledAll] using hspelled
  | @moreItems ls e ms fs _ _ ih ih' =>
    intro s s' hs hu hrun
    simp only [List.forall_mem_append, List.forall_mem_cons] at hu
    obtain ⟨s₁, hls, hrun⟩ := Spot.run_append_eq hrun
    have hfirst := (ih s s₁ hs hu.1 hls).spelled
    have hmore : weight (spelledAll fs) ≤ weight ms := ih' .start s' (by simp) hu.2.2 hrun
    rw [weight_spelledAll] at hmore
    simp only [Category.Weighs, weight_spelledAll, List.map_cons, List.sum_cons, weight_append,
      weight_cons, Lexeme.weight]
    omega

/-! ### Statements and programs -/

section Statements

variable {ls : List Lexeme} {s' : Spot}

/-- What a row weighs that spells an expression. -/
theorem Layered.weight_le {l : Layer} {e : Expr} (h : Layered (.layer l) ls [e])
    (hu : ∀ l ∈ ls, l.Unsigned) (hrun : Spot.start.run ls = some s') :
    weight (spelled e) ≤ weight ls :=
  (h.weighs .start s' (by simp) hu hrun).spelled

/-- A step is spelled without brackets, or weighs something. -/
theorem Layered.weight_step {c : Category} {es : List Expr} (h : Layered c ls es) {l : Layer}
    {name : String} {op : StepOp} (hc : c = .layer l) (hes : es = [.step name op])
    (hu : ∀ l ∈ ls, l.Unsigned) (hrun : Spot.start.run ls = some s') :
    ls = [.variable name, .step op] ∨ 1 ≤ weight ls := by
  induction h generalizing l with
  | tighter _ _ ih => exact ih rfl hes hu hrun
  | @plus ls e h _ =>
    cases hes
    have hweight := h.weight_le (fun l hl => hu l (List.mem_cons_of_mem _ hl)) hrun
    simp only [Canonical.spelled, weight_cons, weight_nil, Lexeme.weight] at hweight ⊢
    exact .inr (by omega)
  | @parens ls e h _ =>
    cases hes
    simp only [List.forall_mem_append, List.forall_mem_cons] at hu
    obtain ⟨s₁, hls, -⟩ := Spot.run_append_eq (s := .start) hrun
    have hweight := h.weight_le hu.2.1 hls
    simp only [Canonical.spelled, weight_cons, weight_append, weight_nil, Lexeme.weight] at hweight ⊢
    exact .inr (by omega)
  | step =>
    cases hes
    exact .inl rfl
  | minus | number | name | call | conditional | left | pow => cases hes
  | single | bracketed | noArguments | lastArgument | moreArguments | noItems | lastItem | moreItems =>
    cases hc

/-- A variable that is updated takes an operator and a pair of brackets at most. -/
theorem weight_binary_variable (op : BinOp) (name : String) (value : Expr) :
    weight (spelled (.binary op (.variable name) value)) ≤ weight (spelled value) + 2 := by
  have hop : (Lexeme.operator op).weight ≤ 1 := by cases op <;> decide
  have hleft : ¬decide (atomRank < op.leftPower) = true := by cases op <;> decide
  rw [Canonical.spelled, rank, bracketedIf, if_neg hleft, weight_append, weight_cons,
    weight_bracketedIf]
  simp only [Canonical.spelled, weight_cons, weight_nil, Lexeme.weight] at hop ⊢
  split <;> omega

theorem SpellsStatement.weight_le {s : Stmt} (h : SpellsStatement ls s) (hu : ∀ l ∈ ls, l.Unsigned)
    (hrun : Spot.start.run ls = some s') : weight (spelledStatement s) ≤ weight ls := by
  cases h with
  | unpack hnames _ hvalue =>
    simp only [List.forall_mem_append, List.forall_mem_cons] at hu
    obtain ⟨s₁, -, hrun⟩ := Spot.run_append_eq (s := .start) hrun
    have hweight := hvalue.weight_le hu.2.2.2.2 hrun
    simp only [spelledStatement, weight_append, weight_cons, weight_spelledNames, hnames.weight_eq]
    omega
  | assignEach hnames _ hvalues _ =>
    simp only [List.forall_mem_append, List.forall_mem_cons] at hu
    obtain ⟨s₁, -, hrun⟩ := Spot.run_append_eq (s := .start) hrun
    obtain ⟨s₂, hvs, -⟩ := Spot.run_append_eq (s := .start) hrun
    have hweight := hvalues.weighs .start s₂ (by simp) hu.2.2.2.2.2.1 hvs
    simp only [Category.Weighs] at hweight
    simp only [spelledStatement, weight_append, weight_cons, weight_spelledNames, hnames.weight_eq]
    omega
  | @assign name op vs value hvalue =>
    simp only [List.forall_mem_cons] at hu
    have hweight := hvalue.weight_le hu.2.2 hrun
    rw [spelledStatement, updated_eq]
    cases ho : op.operator? with
    | none =>
      obtain rfl : op = .plain := by cases op <;> first | rfl | cases ho
      simp only [weight_cons]
      omega
    -- a plain assignment weighs two less than one through an operator, which makes up for a plus
    -- and a pair of brackets
    | some op' =>
      have hassign : (Lexeme.assign op).weight = 0 := by cases op <;> first | rfl | cases ho
      have hupdated := weight_binary_variable op' name value
      rw [weight_cons, weight_cons, weight_cons, weight_cons, hassign]
      simp only [Lexeme.weight]
      omega
  | @step name op =>
    have hweight := weight_binary_variable op.toBinOp name (.number 1)
    rw [weight_spelled_number] at hweight
    rw [advanced_eq]
    simp only [spelledStatement, weight_cons, weight_nil, Lexeme.weight]
    omega
  -- a step is written in brackets, and the row has some as well or is no single step
  | @result ls e hstep hvalue =>
    cases e with
    | step name op =>
      obtain rfl | hweight := hvalue.weight_step rfl rfl hu hrun
      · exact absurd rfl (hstep name op)
      · exact hweight
    | _ => exact hvalue.weight_le hu hrun

/-- Between statements a separator weighs nothing, and a new statement begins behind it. -/
theorem weight_separator {l : Lexeme} (hl : l = .comma ∨ l = .semicolon) :
    l.weight = 0 ∧ ∀ (s : Spot) (ls : List Lexeme), s.run (l :: ls) = Spot.start.run ls := by
  rcases hl with rfl | rfl
  · exact ⟨rfl, fun _ _ => rfl⟩
  · exact ⟨rfl, fun _ _ => rfl⟩

/-- A row that spells a program, and in which no sign stands behind another one, weighs no less than the
text that the program is written as. -/
theorem SpellsProgram.weight_le {p : Program} (h : SpellsProgram ls p) (hu : ∀ l ∈ ls, l.Unsigned)
    (hrun : Spot.start.run ls = some s') : weight (spelledProgram p) ≤ weight ls := by
  rw [weight_spelledProgram]
  induction h with
  | done => exact Int.le_refl _
  | @empty l ls p hl _ ih =>
    simp only [List.forall_mem_cons] at hu
    obtain ⟨hweight, hbehind⟩ := weight_separator hl
    have hmore := ih hu.2 (hbehind .start ls ▸ hrun)
    simp only [List.map_cons, List.sum_cons, weight_cons, hweight]
    simpa [spelledStatement] using hmore
  | last h => simpa using h.weight_le hu hrun
  | @more ls s l rest p h hl _ ih =>
    simp only [List.forall_mem_append, List.forall_mem_cons] at hu
    obtain ⟨s₁, hls, hrun⟩ := Spot.run_append_eq hrun
    obtain ⟨hweight, hbehind⟩ := weight_separator hl
    have hfirst := h.weight_le hu.1 hls
    have hmore := ih hu.2.2 (hbehind s₁ rest ▸ hrun)
    simp only [List.map_cons, List.sum_cons, weight_append, weight_cons, hweight]
    omega

end Statements

end FieldLang
