/-
Generated expressions keep their structure.

* `HostExpr.read?` : the expression that a text is in the host language;
* `HostExpr.Unchained` : every comparison in a tree is one between two operands;
* `expr_ok_iff` : an expression has a text unless it steps an angle parameter;
* `read?_of_renders` : every text of an expression is read as its tree;
* `expr_read_back` : so it is for the expressions of a parsed program, whatever the function is
  called.

Design notes: an expression is read up to the end of the text, so a line break outside of brackets
or a token that is left over would make the reading fail.
-/
import FieldLang.Proofs.Host.Document
import FieldLang.Proofs.Syntax.Nodes
import FieldLang.Proofs.Writing.Parsed
import FieldLang.Proofs.Writing.RoundTrip

namespace FieldLang

/-! ### Reading an expression -/

/-- The expression that a text is, from its first to its last token. -/
def HostExpr.read? (text : List Char) : Option HostExpr := do
  let e ← Host.test (← Host.tokensFrom 0 text)
  match e.rest with
  | [] => some e.value
  | _ :: _ => none

mutual

/-- Every comparison in the tree has two operands and one operator. -/
def HostExpr.Unchained : HostExpr → Prop
  | .whole _ | .real _ | .name _ => True
  | .negate operand => operand.Unchained
  | .binary _ lhs rhs => lhs.Unchained ∧ rhs.Unchained
  | .compare operands ops => operands.length = 2 ∧ ops.length = 1 ∧ unchainedAll operands
  | .conditional ifTrue condition ifFalse =>
    ifTrue.Unchained ∧ condition.Unchained ∧ ifFalse.Unchained
  | .call _ args => unchainedAll args
  | .list items => unchainedAll items
  | .tuple items => unchainedAll items
  | .bind _ value => value.Unchained

/-- The same for trees in a row. -/
def unchainedAll : List HostExpr → Prop
  | [] => True
  | e :: es => e.Unchained ∧ unchainedAll es

end

theorem unchainedAll_iff {es : List HostExpr} : unchainedAll es ↔ ∀ e ∈ es, e.Unchained := by
  induction es with
  | nil => simp [unchainedAll]
  | cons e es ih => simp [unchainedAll, ih]

/-! ### Names in the nodes of an expression -/

/-- The nodes of an expression whose nodes are in place are so, too. -/
theorem Expr.Named.of_mem_nodes {e e' : Expr} (h : e.Named) (he : e' ∈ e.nodes) : e'.Named := by
  induction e using Expr.induction with
  | number value => simpa [nodes, List.mem_singleton.mp he] using h
  | name name => simpa [List.mem_singleton.mp he] using h
  | binary op lhs rhs ihL ihR =>
    rcases List.mem_cons.mp he with rfl | he
    · exact h
    · rcases List.mem_append.mp he with he | he
      · exact ihL h.1 he
      · exact ihR h.2 he
  | negate operand ih =>
    rcases List.mem_cons.mp he with rfl | he
    · exact h
    · exact ih h he
  | call f args ih =>
    rcases List.mem_cons.mp he with rfl | he
    · exact h
    · obtain ⟨arg, harg, he⟩ := mem_nodesAll.mp he
      exact ih arg harg (namedAll_iff.mp h arg harg) he
  | conditional c t f ihC ihT ihF =>
    rcases List.mem_cons.mp he with rfl | he
    · exact h
    · rcases List.mem_append.mp he with he | he
      · rcases List.mem_append.mp he with he | he
        · exact ihC h.1 he
        · exact ihT h.2.1 he
      · exact ihF h.2.2 he
  | step name op => simpa [List.mem_singleton.mp he] using h
  | misplaced display => exact h.elim

theorem Stmt.Named.of_mem_nodes {s : Stmt} {e : Expr} (h : s.Named) (he : e ∈ s.nodes) :
    e.Named := by
  induction s using Stmt.induction with
  | assign name value => exact h.2.of_mem_nodes he
  | unpack names value => exact h.2.2.of_mem_nodes he
  | assignEach names values =>
    obtain ⟨value, hvalue, he⟩ := mem_nodesAll.mp he
    exact (namedAll_iff.mp h.2.2.2 value hvalue).of_mem_nodes he
  | block statements ih =>
    obtain ⟨t, ht, he⟩ := mem_statementsNodes.mp he
    exact ih t ht (statementsNamed_iff.mp h t ht) he
  | result value => exact Expr.Named.of_mem_nodes h he
  | empty => cases he
  | misplaced display => cases he

namespace HostWriter

open Host Layout Writing

variable {w : HostWriter}

/-! ### Trees without chains -/

theorem unchained_magnitude (mag : Decimal.Magnitude) : (magnitudeTree mag).Unchained := by
  rw [magnitudeTree]
  split
  · trivial
  · trivial

theorem unchained_number (value : Float) : (numberTree value).Unchained := by
  rw [numberTree]
  split
  · trivial
  · trivial
  · trivial
  · exact unchained_magnitude _
  · exact unchained_magnitude _

/-- No comparison is written as a part of a chain. -/
theorem unchained_tree (e : Expr) : (w.tree e).Unchained := by
  induction e using Expr.induction with
  | number value => exact unchained_number value
  | name name => trivial
  | binary op lhs rhs ihL ihR =>
    rw [tree]
    -- a comparison is a chain with one link, any other operator is none
    split
    · exact ⟨rfl, rfl, ihL, ihR, trivial⟩
    · exact ⟨ihL, ihR⟩
  | negate operand ih => exact ih
  | call f args ih =>
    have hargs : unchainedAll (w.trees args) := by
      rw [trees_eq_map, unchainedAll_iff]
      intro t ht
      obtain ⟨arg, harg, rfl⟩ := List.mem_map.mp ht
      exact ih arg harg
    have hextra : ∀ t ∈ extraTrees f, t.Unchained := by
      cases f <;> simp [extraTrees, HostExpr.Unchained]
    rw [tree]
    refine unchainedAll_iff.mpr fun t ht => ?_
    rcases List.mem_append.mp ht with ht | ht
    · rw [gathered_eq] at ht
      split at ht
      · rw [List.mem_singleton.mp ht]
        exact hargs
      · exact unchainedAll_iff.mp hargs t ht
    · exact hextra t ht
  | conditional c t f ihC ihT ihF => exact ⟨ihT, ihC, ihF⟩
  | step name op => exact ⟨trivial, trivial⟩
  | misplaced display => trivial

/-! ### Texts -/

/-- Every text of an expression is read as its tree, however it is indented and wherever its lines
are broken. -/
theorem read?_of_renders {e : Expr} (hn : e.Named) {r : Ranked} (hr : w.expr e = .ok r)
    {indent : Int} {t : List Char} (ht : r.doc.Renders indent t) :
    HostExpr.read? (trimLines t) = some (w.tree e) := by
  have hlexes := ((expr_writes hn hr).spells indent t ht).2 0
  have htokens : Host.tokensFrom 0 t = some (w.spelled e) := by
    have h := hlexes [] endsToken_nil
    rw [List.append_nil] at h
    rw [h, tokensFrom_nil]
    simp
  have htrimmed : Host.tokensFrom 0 (trimLines t) = some (w.spelled e) := by
    have h := @tokensFrom_trimLines 0 [] t [] _ (.inl rfl) (by simpa using htokens)
    simpa using h
  have hreads := (phrase_spelled (w := w) hn).toSentence.test [] closes_nil
  rw [List.append_nil] at hreads
  obtain ⟨hlt, htest⟩ := hreads
  rw [HostExpr.read?, htrimmed]
  simp only [bind, Option.bind, htest]

theorem exprs_ok_iff {es : List Expr} :
    (∃ docs, w.exprs es = .ok docs) ↔ ∀ e ∈ es, ∃ r, w.expr e = .ok r := by
  induction es with
  | nil => simp [exprs]
  | cons e es ih =>
    rw [List.forall_mem_cons, ← ih]
    simp only [exprs, exists_bind_ok, pure_eq_ok, exists_eq', and_true, exists_and_right]

/-- An expression has a text unless it steps an angle parameter. -/
theorem expr_ok_iff {e : Expr} (hn : e.Named) :
    (∃ r, w.expr e = .ok r) ↔ ∀ name ∈ readOnlyNames, ¬ e.Steps name := by
  -- a node has a text if its operands have one, and a step if its target may be written
  induction e using Expr.induction with
  | number value => simp [expr]
  | name name => simp [expr]
  | binary op lhs rhs ihL ihR =>
    have hboth : (∃ r, w.expr (.binary op lhs rhs) = .ok r) ↔
        (∃ l, w.expr lhs = .ok l) ∧ ∃ r, w.expr rhs = .ok r := by
      simp only [expr_binary, exists_bind_ok, pure_eq_ok, exists_eq', and_true, exists_and_right]
    rw [hboth, ihL hn.1, ihR hn.2]
    simp [forall_and]
  | negate operand ih =>
    have hoperand : (∃ r, w.expr (.negate operand) = .ok r) ↔ ∃ r, w.expr operand = .ok r := by
      simp only [expr, exists_bind_ok, pure_eq_ok, exists_eq', and_true]
    rw [hoperand, ih hn]
    simp
  | call f args ih =>
    have hargs : (∃ r, w.expr (.call f args) = .ok r) ↔ ∀ e ∈ args, ∃ r, w.expr e = .ok r := by
      rw [← exprs_ok_iff]
      simp only [expr, exists_bind_ok, pure_eq_ok, exists_eq', and_true]
    rw [hargs]
    simp only [Expr.steps_call, not_exists, not_and]
    constructor
    · intro h name hname e he
      exact (ih e he (namedAll_iff.mp hn e he)).mp (h e he) name hname
    · intro h e he
      exact (ih e he (namedAll_iff.mp hn e he)).mpr fun name hname => h name hname e he
  | conditional c t f ihC ihT ihF =>
    have hall : (∃ r, w.expr (.conditional c t f) = .ok r) ↔
        (∃ r, w.expr c = .ok r) ∧ (∃ r, w.expr t = .ok r) ∧ ∃ r, w.expr f = .ok r := by
      simp only [expr, exists_bind_ok, pure_eq_ok, exists_eq', and_true, exists_and_right]
    rw [hall, ihC hn.1, ihT hn.2.1, ihF hn.2.2]
    simp [forall_and]
  | step name op =>
    have hstep : (∃ r, w.expr (.step name op) = .ok r) ↔ ∃ text, w.target name = .ok text := by
      simp only [expr, exists_bind_ok, pure_eq_ok, exists_eq', and_true]
    rw [hstep, target]
    by_cases h : readOnlyNames.contains name = true
    · have hmem : name ∈ readOnlyNames := List.contains_iff_mem.mp h
      simp only [h, if_true, reduceCtorEq, exists_false, Expr.steps_step, false_iff]
      exact fun hnone => hnone name hmem rfl
    · have hmem : name ∉ readOnlyNames := fun hm => h (List.contains_iff_mem.mpr hm)
      simp only [if_neg h, Except.ok.injEq, exists_eq', Expr.steps_step, true_iff]
      exact fun other hother heq => hmem (heq ▸ hother)
  | misplaced display => exact hn.elim

end HostWriter

/-- An expression in a parsed program has a text unless it steps an angle parameter. Wherever its
lines are broken, and rendered in any width, the text is read as the tree of the expression, in
which no comparison is a part of a chain. -/
theorem expr_read_back {policy : Option Policy} {source : List Char} {p : Program}
    (hp : (parse policy source).outcome = .ok p) {e : Expr} (he : e ∈ (Stmt.block p).nodes)
    (w : HostWriter) :
    ((∃ r, w.expr e = .ok r) ↔ ∀ name ∈ readOnlyNames, ¬ e.Steps name) ∧
      ∀ r, w.expr e = .ok r →
        (∀ indent t, r.doc.Renders indent t →
          HostExpr.read? (Layout.trimLines t) = some (w.tree e)) ∧
        (∀ width : Int, 0 < width → ∃ text, r.doc.render width = .ok text ∧
          HostExpr.read? text = some (w.tree e)) ∧
        (w.tree e).Unchained := by
  have hn := (named_of_parse hp).of_mem_nodes he
  refine ⟨HostWriter.expr_ok_iff hn, fun r hr => ⟨?_, fun width hwidth => ?_, ?_⟩⟩
  · exact fun indent t ht => HostWriter.read?_of_renders hn hr ht
  · obtain ⟨t, ht, hrender⟩ := Layout.render_eq hwidth r.doc
    exact ⟨_, hrender, HostWriter.read?_of_renders hn hr ht⟩
  · exact HostWriter.unchained_tree e

/-- The expression `x < y == y < x ? -(x ** y) : (-x) ** y`. -/
def comparedTwice : Expr :=
  let x : Expr := .variable "x"
  let y : Expr := .variable "y"
  .conditional (.binary .eq (.binary .less x y) (.binary .less y x))
    (.negate (.binary .pow x y)) (.binary .pow (.negate x) y)

/-- Its comparisons stay apart, and so do the two powers with a sign. -/
theorem comparedTwice_read_back : ∃ source,
    (parse none source).outcome = .ok [.result comparedTwice] ∧
      comparedTwice ∈ (Stmt.block [.result comparedTwice]).nodes ∧
      ∃ r text, HostWriter.expr ⟨defaultFunctionName, 0, 0⟩ comparedTwice = .ok r ∧
        r.doc.render 20 = .ok text ∧
        HostExpr.read? text = some (.conditional
          (.negate (.binary .pow (.name "x") (.name "y")))
          (.compare [.compare [.name "x", .name "y"] [.less],
            .compare [.name "y", .name "x"] [.less]] [.eq])
          (.binary .pow (.negate (.name "x")) (.name "y"))) := by
  have hx : IsName "x" := HostWriter.isName_given (by decide)
  have hy : IsName "y" := HostWriter.isName_given (by decide)
  have hn : (Stmt.block [.result comparedTwice]).Named :=
    ⟨⟨⟨⟨hx, hy⟩, hy, hx⟩, ⟨hx, hy⟩, hx, hy⟩, trivial⟩
  obtain ⟨source, -, hparse, -⟩ := unparse_parse hn
    (by simp [Stmt.numbers, comparedTwice, numbersOfStatements, Expr.numbers])
    (show (0 : Int) < 80 by decide)
  have hnormal : (Stmt.block [.result comparedTwice]).normalForm = [.result comparedTwice] := rfl
  rw [hnormal] at hparse
  have hnode : comparedTwice ∈ (Stmt.block [.result comparedTwice]).nodes :=
    List.mem_append_left _ (Expr.mem_nodes_self comparedTwice)
  obtain ⟨hwritten, hread⟩ := expr_read_back hparse hnode ⟨defaultFunctionName, 0, 0⟩
  obtain ⟨r, hr⟩ := hwritten.mpr (by simp [readOnlyNames, comparedTwice])
  obtain ⟨text, htext, htree⟩ := (hread r hr).2.1 20 (by decide)
  exact ⟨source, hparse, hnode, r, text, hr, htext, htree⟩

end FieldLang
