/-
The tokens that expressions are written as, and what they are read as.

* `rank`, `spelled` : how tightly an expression is written, and its tokens;
* `Leads` : what the tokens of an expression begin with;
* `Sentence`, `Phrase` : tokens that are read as an expression wherever its rank allows it;
* `phrase_spelled` : what is written is read as the tree of the expression.

Design notes: a phrase is one fact for each reader that is called in front of it. A place asks for
a rank, and brackets make a phrase of any rank one of the highest.
-/
import FieldLang.Proofs.Host.Reading
import FieldLang.Proofs.Host.Trees
import FieldLang.Proofs.Syntax.Induction
import FieldLang.Proofs.Writing.Spelling

namespace FieldLang.HostWriter

open Host Writing

/-! ### Spelling -/

/-- The rank that an expression is written with. -/
def rank : Expr → Nat
  | .number value => (number value).rank
  | .variable _ | .call _ _ | .step _ _ => atomRank
  | .negate _ => signRank
  | .binary op _ _ => (operator op).2
  | .conditional _ _ _ => conditionalRank
  | .misplaced _ => 0

/-- The rank that an operator asks of the operand on its left. -/
def leftRank (op : BinOp) : Nat :=
  if (operator op).2 = comparisonRank ∨ op = .pow then (operator op).2 + 1 else (operator op).2

/-- The rank that an operator asks of the operand on its right. -/
def rightRank (op : BinOp) : Nat := if op = .pow then signRank else (operator op).2 + 1

/-- The token of an operator. -/
def operatorToken : BinOp → HostToken
  | .or => .name "or"
  | .and => .name "and"
  | op => .mark (operator op).1

/-- The token of a finite number without its sign. -/
def magnitudeToken (mag : Decimal.Magnitude) : HostToken :=
  if isShortWhole mag then .whole mag.whole else .real (Decimal.ofMagnitude mag)

/-- The tokens of a literal. -/
def numberTokens (value : Float) : List HostToken :=
  match Decimal.parts value with
  | .nan => [.name "nan"]
  | .infinite false => [.name "inf"]
  | .infinite true => [.mark "-", .name "inf"]
  | .finite false mag => [magnitudeToken mag]
  | .finite true mag => [.mark "-", magnitudeToken mag]

/-- The tokens of the arguments that the host function needs besides those of the program. -/
def extraTokens : Builtin → List (List HostToken)
  | .rot0 => [[.name "a0"]]
  | .rot1 => [[.name "a1"]]
  | _ => []

/-- Rows of tokens with a comma between any two of them. -/
def commaSeparated : List (List HostToken) → List HostToken
  | [] => []
  | first :: rest => first ++ rest.flatMap (.mark "," :: ·)

/-- Tokens between round brackets. -/
def bracketed (ts : List HostToken) : List HostToken := .mark "(" :: (ts ++ [.mark ")"])

/-- Rows of tokens between square brackets, with a comma between any two of them. -/
def listed (rows : List (List HostToken)) : List HostToken :=
  .mark "[" :: (commaSeparated rows ++ [.mark "]"])

/-- Tokens between round brackets if something asks for them. -/
def bracketedIf (asked : Bool) (ts : List HostToken) : List HostToken :=
  if asked then bracketed ts else ts

variable (w : HostWriter)

/-- The tokens of a variable after a step. -/
def steppedTokens (name : String) (op : StepOp) : List HostToken :=
  [.name (w.variableText name), .mark (stepSign op), .whole 1]

mutual

/-- The tokens that an expression is written as. -/
def spelled : Expr → List HostToken
  | .number value => numberTokens value
  | .variable name => [.name (w.variableText name)]
  | .negate operand => .mark "-" :: bracketedIf (rank operand < signRank) (spelled operand)
  | .binary op lhs rhs =>
    bracketedIf (rank lhs < leftRank op) (spelled lhs) ++
      operatorToken op :: bracketedIf (rank rhs < rightRank op) (spelled rhs)
  | .conditional condition ifTrue ifFalse =>
    bracketedIf (rank ifTrue < conditionalRank + 1) (spelled ifTrue) ++
      .name "if" :: (bracketedIf (rank condition < conditionalRank + 1) (spelled condition) ++
        .name "else" :: bracketedIf (rank ifFalse < conditionalRank) (spelled ifFalse))
  | .call f args =>
    .name f.name :: .mark "(" ::
      (commaSeparated (gathered f listed (spelledAll args) ++ extraTokens f) ++ [.mark ")"])
  | .step name op =>
    bracketed (.name (w.variableText name) :: .mark ":=" :: w.steppedTokens name op)
  | .misplaced _ => []

/-- The rows of tokens that expressions are written as. -/
def spelledAll : List Expr → List (List HostToken)
  | [] => []
  | e :: es => spelled e :: spelledAll es

end

theorem spelledAll_eq_map (es : List Expr) : w.spelledAll es = es.map w.spelled := by
  induction es with
  | nil => rfl
  | cons e es ih => rw [spelledAll, ih, List.map_cons]

/-! ### What a spelling begins with -/

/-- Whether an expression can begin with a token. -/
def starts : HostToken → Bool
  | .name n => isName n
  | .whole _ | .real _ => true
  | .mark spelling => ["(", "[", "-"].contains spelling
  | .line _ => false

/-- The tokens begin like an expression, and not like one that is bound to a name. -/
def Leads (ts : List HostToken) : Prop :=
  ∃ t rest, ts = t :: rest ∧ starts t = true ∧ rest.head? ≠ some (.mark ":=")

section Leads

variable {ts rest : List HostToken}

theorem Leads.append (h : Leads ts) (hrest : rest.head? ≠ some (.mark ":=")) :
    Leads (ts ++ rest) := by
  obtain ⟨t, us, rfl, ht, hus⟩ := h
  refine ⟨t, us ++ rest, rfl, ht, ?_⟩
  cases us with
  | nil => exact hrest
  | cons u us => exact hus

theorem Leads.head_append_ne_mark (h : Leads ts) {spelling : String}
    (hs : spelling ∈ [")", "]", "=", ":="]) (rest : List HostToken) :
    (ts ++ rest).head? ≠ some (.mark spelling) := by
  obtain ⟨t, us, rfl, ht, -⟩ := h
  rintro ⟨⟩
  revert ht
  simp only [List.mem_cons, List.not_mem_nil, or_false] at hs
  rcases hs with rfl | rfl | rfl | rfl <;> decide

theorem Leads.head_ne_mark (h : Leads ts) {spelling : String}
    (hs : spelling ∈ [")", "]", "=", ":="]) : ts.head? ≠ some (.mark spelling) := by
  have := h.head_append_ne_mark hs []
  rwa [List.append_nil] at this

theorem Leads.plain (h : Leads ts) : Host.Plain ts where
  nonempty := h.head_ne_mark (by decide)
  unbound := by
    rintro n rest rfl
    obtain ⟨t, us, heq, -, hus⟩ := h
    cases heq
    exact hus rfl

theorem leads_cons {t : HostToken} (ht : starts t = true) (hts : ts.head? ≠ some (.mark ":=")) :
    Leads (t :: ts) := ⟨t, ts, rfl, ht, hts⟩

theorem leads_bracketed (h : Leads ts) : Leads (bracketed ts) := by
  refine leads_cons rfl ?_
  obtain ⟨t, us, rfl, ht, -⟩ := h
  rintro ⟨⟩
  exact absurd ht (by decide)

end Leads

/-! ### Phrases -/

/-- The tokens are read as an expression. -/
structure Sentence (ts : List HostToken) (e : HostExpr) : Prop where
  leads : Leads ts
  test : ∀ rest, Host.Closes rest → Reads (Host.test (ts ++ rest)) e rest

/-- The rank of the operators that an expression of some rank does not end before. -/
def bound (rank : Nat) : Nat := if rank = comparisonRank then compareRank else rank

theorem bound_mono {r r' : Nat} (h : r ≤ r') : bound r ≤ bound r' := by
  unfold bound comparisonRank compareRank
  split <;> split <;> omega

theorem one_le_bound {r : Nat} (h : conditionalRank < r) : 1 ≤ bound r := by
  unfold bound comparisonRank compareRank
  unfold conditionalRank at h
  split <;> omega

/-- Where operands of at least a given rank are asked for, the operators behind them follow. -/
def ReadsBinary (rank : Nat) (ts : List HostToken) (e : HostExpr) : Prop :=
  ∀ least e' rest rest', least < rank → Host.Stops (bound rank) rest →
    Keeps (Host.operators least e rest) e' rest' → Reads (Host.binary least (ts ++ rest)) e' rest'

def ReadsSigned (ts : List HostToken) (e : HostExpr) : Prop :=
  ∀ rest, Host.Ends rest → Reads (Host.signed (ts ++ rest)) e rest

def ReadsAtom (ts : List HostToken) (e : HostExpr) : Prop :=
  ∀ rest, rest.head? ≠ some (.mark "(") → Reads (Host.atom (ts ++ rest)) e rest

/-- The tokens are read as an expression wherever one of a given rank may stand. -/
structure Phrase (rank : Nat) (ts : List HostToken) (e : HostExpr) : Prop
    extends Sentence ts e where
  binary : conditionalRank < rank → ReadsBinary rank ts e
  signed : signRank ≤ rank → ReadsSigned ts e
  atom : (operator .pow).2 < rank → ReadsAtom ts e

section Phrase

variable {ts : List HostToken} {e : HostExpr} {r : Nat}

theorem ReadsSigned.binary (h : ReadsSigned ts e) (r : Nat) : ReadsBinary r ts e :=
  fun _ _ rest _ _ hstops hkeeps => reads_binary (h rest hstops.toEnds) hkeeps

theorem ReadsBinary.sentence (h : ReadsBinary r ts e) (hr : conditionalRank < r)
    (hleads : Leads ts) : Sentence ts e where
  leads := hleads
  test rest hrest :=
    reads_test hrest.conditional
      (h 1 e rest rest hr (hrest.toStops.mono (one_le_bound hr)) (keeps_stop hrest.toStops))

theorem ReadsAtom.signed (h : ReadsAtom ts e) : ReadsSigned ts e := by
  intro rest hrest
  have hatom := h rest hrest.bracket
  exact reads_signed hatom.no_minus (reads_power hrest.power hatom)

/-- A phrase of the highest rank. -/
theorem ReadsAtom.phrase (h : ReadsAtom ts e) (hleads : Leads ts) : Phrase atomRank ts e where
  toSentence := (h.signed.binary atomRank).sentence (by decide) hleads
  binary _ := h.signed.binary atomRank
  signed _ := h.signed
  atom _ := h

/-- A phrase with a sign or a power. -/
theorem ReadsSigned.phrase (h : ReadsSigned ts e) (hleads : Leads ts) (hr : signRank ≤ r)
    (hle : r ≤ (operator .pow).2) : Phrase r ts e where
  toSentence := (h.binary r).sentence (Nat.lt_of_lt_of_le (by decide) hr) hleads
  binary _ := h.binary r
  signed _ := h
  atom hlt := absurd hle (Nat.not_le.mpr hlt)

/-- A phrase with an operator that binds less than a sign. -/
theorem ReadsBinary.phrase (h : ReadsBinary r ts e) (hleads : Leads ts)
    (hr : conditionalRank < r) (hlt : r < signRank) : Phrase r ts e where
  toSentence := h.sentence hr hleads
  binary _ := h
  signed hle := absurd hlt (Nat.not_lt.mpr hle)
  atom h := absurd (Nat.lt_trans hlt (by decide)) (Nat.not_lt.mpr (Nat.le_of_lt h))

end Phrase

/-! ### Nodes -/

section Nodes

variable {ts us : List HostToken} {e e' : HostExpr} {r r' : Nat}

theorem phrase_bracketed (h : Sentence ts e) : Phrase atomRank (bracketed ts) e := by
  refine ReadsAtom.phrase (fun rest _ => ?_) (leads_bracketed h.leads)
  rw [bracketed, List.cons_append, List.append_assoc]
  exact reads_parens (h.leads.append (by simp)).plain (h.test _ (closes_mark (by simp) rest))

/-- An expression in its place. -/
theorem Phrase.within (h : Phrase r ts e) (least : Nat) (hle : least ≤ atomRank) :
    ∃ r', least ≤ r' ∧ Phrase r' (HostWriter.bracketedIf (r < least) ts) e := by
  by_cases hr : r < least
  · rw [HostWriter.bracketedIf, if_pos (by simpa using hr)]
    exact ⟨atomRank, hle, phrase_bracketed h.toSentence⟩
  · rw [HostWriter.bracketedIf, if_neg (by simpa using hr)]
    exact ⟨r, Nat.not_lt.mp hr, h⟩

theorem phrase_minus (h : Phrase r ts e) (hr : signRank ≤ r) :
    Phrase signRank (.mark "-" :: ts) (.negate e) := by
  refine ReadsSigned.phrase (fun rest hrest => reads_minus (h.signed hr rest hrest))
    (leads_cons rfl (h.leads.head_ne_mark (by simp))) (Nat.le_refl _) (by decide)

/-- What stands between two operands of a rank. -/
theorem operator?_operatorToken {op : BinOp} (h : op ≠ .pow) :
    operator? (operatorToken op) = some (op, (operator op).2 - 1) := by
  cases op with
  | pow => exact absurd rfl h
  | _ => rfl

theorem operatorToken_ne_bound (op : BinOp) (rest : List HostToken) :
    (operatorToken op :: rest).head? ≠ some (.mark ":=") := by
  cases op <;> simp [operatorToken, operator]

theorem phrase_power (h : Phrase r ts e) (h' : Phrase r' us e') (hr : leftRank .pow ≤ r)
    (hr' : rightRank .pow ≤ r') :
    Phrase (operator .pow).2 (ts ++ .mark "**" :: us) (.binary .pow e e') := by
  refine ReadsSigned.phrase (fun rest hrest => ?_)
    (h.leads.append (operatorToken_ne_bound .pow us)) (by decide) (Nat.le_refl _)
  have hbase := h.atom hr (.mark "**" :: (us ++ rest)) (by simp)
  rw [List.append_assoc]
  exact reads_signed hbase.no_minus (reads_exponent hbase (h'.signed hr' rest hrest))

theorem phrase_comparison {op : BinOp} (hop : (operator op).2 = comparisonRank)
    (h : Phrase r ts e) (h' : Phrase r' us e') (hr : leftRank op ≤ r) (hr' : rightRank op ≤ r') :
    Phrase comparisonRank (ts ++ operatorToken op :: us) (.compare [e, e'] [op]) := by
  have hpow : op ≠ .pow := by
    rintro rfl
    exact absurd hop (by decide)
  have htoken : operator? (operatorToken op) = some (op, compareRank) := by
    rw [operator?_operatorToken hpow, hop]
    rfl
  have hr : comparisonRank + 1 ≤ r := by rwa [leftRank, hop, if_pos (.inl rfl)] at hr
  have hr' : comparisonRank + 1 ≤ r' := by rwa [rightRank, if_neg hpow, hop] at hr'
  refine ReadsBinary.phrase ?_ (h.leads.append (operatorToken_ne_bound op us)) (by decide)
    (by decide)
  intro least e'' rest rest' hleast hstops hkeeps
  rw [List.append_assoc]
  refine h.binary (Nat.lt_of_lt_of_le (by decide) hr) least e'' _ rest' (by omega)
    (stops_operator htoken (Nat.lt_of_lt_of_le (by decide) (bound_mono hr)) _) ?_
  -- the right operand takes no comparison, and none follows it
  have hright := h'.binary (Nat.lt_of_lt_of_le (by decide) hr') (compareRank + 1) e' rest rest
    hr' (hstops.mono (bound_mono (Nat.le_of_succ_le hr')))
    (keeps_stop (hstops.mono (by decide)))
  exact keeps_comparison htoken (Nat.le_of_lt_succ hleast) hright hstops hkeeps

theorem phrase_binary {op : BinOp} (hop : (operator op).2 ≠ comparisonRank) (hpow : op ≠ .pow)
    (h : Phrase r ts e) (h' : Phrase r' us e') (hr : leftRank op ≤ r) (hr' : rightRank op ≤ r') :
    Phrase (operator op).2 (ts ++ operatorToken op :: us) (.binary op e e') := by
  have htoken := operator?_operatorToken hpow
  have hlow : conditionalRank < (operator op).2 ∧ (operator op).2 < signRank := by
    revert hpow
    cases op <;> decide
  have hbound : bound (operator op).2 = (operator op).2 := if_neg hop
  have hr : (operator op).2 ≤ r := by rwa [leftRank, if_neg (by simp [hop, hpow])] at hr
  have hr' : (operator op).2 + 1 ≤ r' := by rwa [rightRank, if_neg hpow] at hr'
  have hrank : (operator op).2 - 1 + 1 = (operator op).2 :=
    Nat.sub_add_cancel (Nat.le_of_lt hlow.1)
  refine ReadsBinary.phrase ?_ (h.leads.append (operatorToken_ne_bound op us)) hlow.1 hlow.2
  intro least e'' rest rest' hleast hstops hkeeps
  rw [List.append_assoc]
  refine h.binary (Nat.lt_of_lt_of_le hlow.1 hr) least e'' _ rest' (by omega)
    (stops_operator htoken ?_ _) ?_
  · have := bound_mono hr
    omega
  -- the operator is one of the rank that is looked for, and no comparison
  · have hright := h'.binary (by omega) ((operator op).2 - 1 + 1) e' rest rest (by omega)
      (hstops.mono (bound_mono (Nat.le_of_succ_le hr')))
      (keeps_stop (hstops.mono (by omega)))
    refine keeps_operator htoken (by omega) ?_ hright hkeeps
    intro heq
    refine hop ?_
    rw [← hrank, heq]
    rfl

/-- Two operands around an operator. -/
theorem phrase_operator (op : BinOp) (h : Phrase r ts e) (h' : Phrase r' us e')
    (hr : leftRank op ≤ r) (hr' : rightRank op ≤ r') :
    Phrase (operator op).2 (ts ++ operatorToken op :: us)
      (if (operator op).2 = comparisonRank then .compare [e, e'] [op] else .binary op e e') := by
  split
  · next hop =>
    rw [hop]
    exact phrase_comparison hop h h' hr hr'
  · next hop =>
    by_cases hpow : op = .pow
    · subst hpow
      exact phrase_power h h' hr hr'
    · exact phrase_binary hop hpow h h' hr hr'

theorem phrase_conditional {vs : List HostToken} {e'' : HostExpr} {r'' : Nat}
    (h : Phrase r ts e) (h' : Phrase r' us e') (h'' : Phrase r'' vs e'')
    (hr : conditionalRank + 1 ≤ r) (hr' : conditionalRank + 1 ≤ r') :
    Phrase conditionalRank (ts ++ .name "if" :: (us ++ .name "else" :: vs))
      (.conditional e e' e'') where
  leads := h.leads.append (by simp)
  test rest hrest := by
    -- neither operand goes on behind the word that follows it
    have hif : ∀ rest, Host.Stops 1 (.name "if" :: rest) := stops_cons (by simp) (by simp) rfl 1
    have hfirst := h.binary hr 1 e (.name "if" :: (us ++ .name "else" :: (vs ++ rest))) _ hr
      ((hif _).mono (one_le_bound hr)) (keeps_stop (hif _))
    have hcondition := h'.binary hr' 1 e' (.name "else" :: (vs ++ rest)) _ hr'
      ((closes_else _).mono (one_le_bound hr')) (keeps_stop (closes_else _))
    rw [List.append_assoc, List.cons_append, List.append_assoc, List.cons_append]
    exact reads_conditional hfirst hcondition (h''.test rest hrest)
  binary hlt := absurd hlt (Nat.lt_irrefl _)
  signed hle := absurd hle (by decide)
  atom hlt := absurd hlt (by decide)

/-- Expressions with commas between them, up to the bracket that closes them. -/
theorem reads_commaSeparated {closing : String} (hclosing : closing ∈ [")", "]"])
    {tss : List (List HostToken)} {es : List HostExpr} (h : List.Forall₂ Sentence tss es)
    (rest : List HostToken) :
    Reads (Host.items closing (commaSeparated tss ++ .mark closing :: rest)) es rest := by
  have hcomma : closing ≠ "," := by
    rintro rfl
    revert hclosing
    decide
  have hmarks : closing ∈ [")", "]", "=", ":="] := by
    simp only [List.mem_cons, List.not_mem_nil, or_false] at hclosing ⊢
    rcases hclosing with rfl | rfl <;> simp
  have hcloses : ∀ rest, Host.Closes (.mark closing :: rest) := by
    refine fun rest => closes_mark ?_ rest
    simp only [List.mem_cons, List.not_mem_nil, or_false] at hclosing ⊢
    rcases hclosing with rfl | rfl <;> simp
  cases h with
  | nil => exact reads_no_items closing
  | @cons ts e tss es hfirst hrest =>
    rw [commaSeparated]
    -- on the expressions behind the first one
    induction hrest generalizing ts e with
    | nil =>
      rw [List.flatMap_nil, List.append_nil]
      exact reads_last_item hcomma (hfirst.leads.head_append_ne_mark hmarks _)
        (hfirst.test _ (hcloses rest))
    | @cons ts' e' tss es hsecond _ ih =>
      rw [List.flatMap_cons, List.append_assoc, List.cons_append, List.cons_append]
      refine reads_items (hfirst.leads.head_append_ne_mark hmarks _)
        (hfirst.test _ (closes_mark (by simp) _)) ?_
      exact ih hsecond

end Nodes

/-! ### Expressions -/

theorem phrase_name {n : String} (hn : Host.isName n = true) : Phrase atomRank [.name n] (.name n) :=
  ReadsAtom.phrase (fun _ hrest => reads_name hn hrest) (leads_cons hn (by simp))

theorem phrase_magnitude (mag : Decimal.Magnitude) :
    Phrase atomRank [magnitudeToken mag] (magnitudeTree mag) := by
  rw [magnitudeToken, magnitudeTree]
  split
  · exact ReadsAtom.phrase (fun _ _ => reads_whole _) (leads_cons rfl (by simp))
  · exact ReadsAtom.phrase (fun _ _ => reads_real _) (leads_cons rfl (by simp))

theorem phrase_number (value : Float) :
    Phrase (number value).rank (numberTokens value) (numberTree value) := by
  have hnan : Phrase atomRank [.name "nan"] (.name "nan") := phrase_name (by decide)
  have hinf : Phrase atomRank [.name "inf"] (.name "inf") := phrase_name (by decide)
  rw [number, numberTokens, numberTree]
  cases Decimal.parts value with
  | nan => exact hnan
  | infinite negative =>
    cases negative with
    | false => exact hinf
    | true => exact phrase_minus hinf (by decide)
  | finite negative mag =>
    cases negative with
    | false => exact phrase_magnitude mag
    | true => exact phrase_minus (phrase_magnitude mag) (by decide)

theorem isName_function (f : Builtin) : Host.isName f.name = true := by
  cases f <;> decide

theorem phrase_call {f : String} (hf : Host.isName f = true) {tss : List (List HostToken)}
    {es : List HostExpr} (h : List.Forall₂ Sentence tss es) :
    Phrase atomRank (.name f :: .mark "(" :: (commaSeparated tss ++ [.mark ")"])) (.call f es) := by
  refine ReadsAtom.phrase (fun rest _ => ?_) (leads_cons hf (by simp))
  rw [List.cons_append, List.cons_append, List.append_assoc]
  exact reads_call hf (reads_commaSeparated (by simp) h rest)

theorem phrase_list {tss : List (List HostToken)} {es : List HostExpr}
    (h : List.Forall₂ Sentence tss es) :
    Phrase atomRank (listed tss) (.list es) := by
  refine ReadsAtom.phrase (fun rest _ => ?_) (leads_cons rfl ?_)
  · rw [listed, List.cons_append, List.append_assoc]
    exact reads_list (reads_commaSeparated (by simp) h rest)
  · cases h with
    | nil => simp [commaSeparated]
    | cons hfirst _ =>
      rw [commaSeparated, List.append_assoc]
      exact hfirst.leads.head_append_ne_mark (by simp) _

theorem sentences_extra (f : Builtin) : List.Forall₂ Sentence (extraTokens f) (extraTrees f) := by
  have hangle : ∀ n : String, Host.isName n = true → Sentence [.name n] (.name n) :=
    fun n hn => (phrase_name hn).toSentence
  cases f with
  | rot0 => exact .cons (hangle "a0" (by decide)) .nil
  | rot1 => exact .cons (hangle "a1" (by decide)) .nil
  | _ => exact .nil

variable {w : HostWriter}

/-- A variable after a step. -/
theorem phrase_stepped (name : String) (op : StepOp) :
    Sentence (w.steppedTokens name op) (w.stepped name op) := by
  have hvariable := phrase_name (isName_variableText (w := w) name)
  have hone : Phrase atomRank [.whole 1] (.whole 1) :=
    ReadsAtom.phrase (fun _ _ => reads_whole _) (leads_cons rfl (by simp))
  cases op with
  | increment => exact (phrase_operator .add hvariable hone (by decide) (by decide)).toSentence
  | decrement => exact (phrase_operator .sub hvariable hone (by decide) (by decide)).toSentence

theorem phrase_step (name : String) (op : StepOp) :
    Phrase atomRank (w.spelled (.step name op)) (w.tree (.step name op)) := by
  rw [spelled, tree]
  refine ReadsAtom.phrase (fun rest _ => ?_) (leads_cons rfl (by simp))
  rw [bracketed, List.cons_append, List.append_assoc]
  exact reads_bound (isName_variableText name)
    ((phrase_stepped name op).test _ (closes_mark (by simp) rest))

/-- What is written is read as the tree of the expression. -/
theorem phrase_spelled {e : Expr} (hn : e.Named) : Phrase (rank e) (w.spelled e) (w.tree e) := by
  induction e using Expr.induction with
  | number value =>
    rw [rank, spelled, tree]
    exact phrase_number value
  | name name =>
    rw [rank, spelled, tree]
    exact phrase_name (isName_variableText name)
  | negate operand ih =>
    rw [rank, spelled, tree]
    obtain ⟨r, hr, hphrase⟩ := (ih hn).within signRank (by decide)
    exact phrase_minus hphrase hr
  | binary op lhs rhs ihl ihr =>
    obtain ⟨hl, hr⟩ := hn
    -- an operand is put in brackets where its rank is too low for its side
    have hranks : leftRank op ≤ atomRank ∧ rightRank op ≤ atomRank := by cases op <;> decide
    obtain ⟨r, hleft, hlhs⟩ := (ihl hl).within _ hranks.1
    obtain ⟨r', hright, hrhs⟩ := (ihr hr).within _ hranks.2
    rw [rank, spelled, tree]
    exact phrase_operator op hlhs hrhs hleft hright
  | conditional condition ifTrue ifFalse ihc iht ihf =>
    obtain ⟨hc, ht, hf⟩ := hn
    obtain ⟨r, hr, htrue⟩ := (iht ht).within (conditionalRank + 1) (by decide)
    obtain ⟨r', hr', hcondition⟩ := (ihc hc).within (conditionalRank + 1) (by decide)
    obtain ⟨r'', -, hfalse⟩ := (ihf hf).within conditionalRank (by decide)
    rw [rank, spelled, tree]
    exact phrase_conditional htrue hcondition hfalse hr hr'
  | call f args ih =>
    have hargs : List.Forall₂ Sentence (w.spelledAll args) (w.trees args) := by
      rw [spelledAll_eq_map, trees_eq_map, List.forall₂_map_left_iff, List.forall₂_map_right_iff,
        List.forall₂_same]
      exact fun e he => (ih e he (namedAll_iff.mp hn e he)).toSentence
    rw [rank, spelled, tree]
    exact phrase_call (isName_function f)
      (List.rel_append (forall₂_gathered f (phrase_list hargs).toSentence hargs) (sentences_extra f))
  | step name op =>
    rw [rank]
    exact phrase_step name op
  | misplaced display => exact hn.elim

end FieldLang.HostWriter
