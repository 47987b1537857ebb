/-
Programs compiled through the host language.

* `executeAll_simpleStatements` : a program runs as its simple statements that are not empty;
* `read?_generate` : the text of a program is read as the function of these;
* `compile_correct` : the function that a source is compiled to yields what evaluation does, and there
  is one unless the text nests too many brackets.

Design notes: a text depends on the width, and neither its brackets nor the function that it is read as
do. What the function yields is compared with evaluation on the statements that it was written from.
-/
import FieldLang.Host.Compile
import FieldLang.Proofs.Host.Document
import FieldLang.Proofs.Host.Nesting
import FieldLang.Proofs.Writing.Parsed
import FieldLang.Proofs.Writing.RoundTrip

namespace FieldLang

namespace HostWriter

/-- Empty statements do nothing. -/
theorem executeAll_simpleStatements {angles : Angles} (state : SingleState) (s : Stmt) :
    executeAll angles state (simpleStatements s) = execute angles state s := by
  rw [← executeAll_flatten s, simpleStatements]
  induction s.flatten generalizing state with
  | nil => rfl
  | cons t ts ih =>
    by_cases ht : t = .empty
    · subst ht
      rw [List.filter_cons_of_neg (by simp), executeAll_cons, execute]
      exact ih state
    · rw [List.filter_cons_of_pos (by cases t <;> simp_all), executeAll_cons, executeAll_cons]
      cases execute angles state t with
      | error e => rfl
      | ok state' => exact ih state'

theorem allSimple_simpleStatements {s : Stmt} (hn : s.Named) : AllSimple (simpleStatements s) := by
  intro t ht
  obtain ⟨hmem, hne⟩ := List.mem_filter.mp ht
  refine ⟨named_of_mem_flatten hn hmem, ne_block_of_mem_flatten hmem, ?_⟩
  rintro rfl
  cases hne

section Names

variable {functionName : String} {a0 a1 : Float} {angles : Angles} {s : Stmt}

/-- The text of a program is read as its function, whatever the width, and nests its brackets. -/
theorem read?_generate (hname : functionName ≠ Host.constantName) {width : Int} (hn : s.Named)
    {text : List Char} (h : generate { width, a0, a1, functionName } s = .ok text) :
    ∃ ss last, simpleStatements s = ss ++ [last] ∧
      HostFunction.read? text = some (function ⟨functionName, a0, a1⟩ ss last) ∧
      Host.nesting text = functionBrackets ss last := by
  obtain ⟨ss, last, hsimple, htokens⟩ := hostTokens_generate hn h
  have hall : AllSimple (ss ++ [last]) := hsimple ▸ allSimple_simpleStatements hn
  exact ⟨ss, last, hsimple, read?_functionTokens (w := ⟨functionName, a0, a1⟩) hname hall htokens,
    nesting_of_tokens htokens⟩

/-- A program that has a document is compiled to the function that its text is read as, unless there
are too many brackets. -/
theorem compile_of_document (hname : functionName ≠ Host.constantName) (hn : s.Named)
    {doc : Layout.Doc} (h : document ⟨functionName, angles.a0, angles.a1⟩ s = .ok doc) :
    ∃ ss last source, simpleStatements s = ss ++ [last] ∧ compile angles functionName s =
      if Host.nestingLimit < functionBrackets ss last then .error .badText
      else .ok ⟨source, function ⟨functionName, angles.a0, angles.a1⟩ ss last⟩ := by
  obtain ⟨t, -, hsource⟩ := generate_of_document (show 0 < defaultWidth by decide) h
  obtain ⟨ss, last, hsimple, hread, hnesting⟩ := read?_generate hname hn hsource
  refine ⟨ss, last, Layout.trimLines t ++ ['\n'], hsimple, ?_⟩
  have hsource : generate { a0 := angles.a0, a1 := angles.a1, functionName } s =
      .ok (Layout.trimLines t ++ ['\n']) := hsource
  simp only [compile, hsource, hread, hnesting, bind, Except.bind, mapError_ok]
  rfl

/-- The function has no name that the host lets nobody bind. -/
theorem compile_constantName (hn : s.Named) {doc : Layout.Doc}
    (h : document ⟨Host.constantName, angles.a0, angles.a1⟩ s = .ok doc) :
    compile angles Host.constantName s = .error .badText := by
  obtain ⟨t, -, hsource⟩ := generate_of_document (show 0 < defaultWidth by decide) h
  obtain ⟨ss, last, -, htokens⟩ := hostTokens_generate hn hsource
  have hread := read?_constantName (w := ⟨Host.constantName, angles.a0, angles.a1⟩) rfl htokens
  have hsource : generate { a0 := angles.a0, a1 := angles.a1, functionName := Host.constantName } s =
      .ok (Layout.trimLines t ++ ['\n']) := hsource
  simp only [compile, hsource, hread, bind, Except.bind, mapError_ok, ite_self]

/-- A program that has a text in some width is compiled to the function that the text is read as,
unless the text nests too many brackets. -/
theorem compile_of_generate (hname : functionName ≠ Host.constantName) {width : Int} (hn : s.Named)
    {text : List Char}
    (h : generate { width, a0 := angles.a0, a1 := angles.a1, functionName } s = .ok text) :
    ∃ ss last source, simpleStatements s = ss ++ [last] ∧
      compile angles functionName s =
        (if Host.nestingLimit < Host.nesting text then .error .badText
        else .ok ⟨source, function ⟨functionName, angles.a0, angles.a1⟩ ss last⟩) ∧
      HostFunction.read? text = some (function ⟨functionName, angles.a0, angles.a1⟩ ss last) := by
  obtain ⟨-, doc, hdoc⟩ := generate_ok h
  -- the statements do not depend on the width, so neither does the function
  obtain ⟨ss, last, hsimple, hread, hnesting⟩ := read?_generate hname hn h
  obtain ⟨ss', last', source, hsimple', hcompile⟩ := compile_of_document hname hn hdoc
  obtain ⟨rfl, rfl⟩ := List.append_singleton_inj.mp (hsimple.symm.trans hsimple')
  exact ⟨ss, last, source, hsimple, hnesting ▸ hcompile, hread⟩

theorem document_result {w : HostWriter} {e : Expr} {r : Writing.Ranked}
    (hcheck : w.checkName = .ok ()) (he : w.expr e = .ok r) :
    ∃ doc, w.document (.block [.result e]) = .ok doc := by
  have hfinal : w.finalStatement (.result e) = .ok [.concat [.text "return ", r.within 0]] := by
    rw [finalStatement, he]
    rfl
  rw [document, hcheck]
  show ∃ doc, (finalStatement _ (.result e) >>= _) = .ok doc
  rw [hfinal]
  exact ⟨_, rfl⟩

/-- A program of a single expression is compiled to the function that returns it, unless there are
too many brackets. -/
theorem compile_result {e : Expr} {r : Writing.Ranked}
    (hcheck : checkName ⟨functionName, angles.a0, angles.a1⟩ = .ok ())
    (hname : functionName ≠ Host.constantName) (hn : e.Named)
    (he : expr ⟨functionName, angles.a0, angles.a1⟩ e = .ok r) :
    ∃ source, compile angles functionName (.block [.result e]) =
      if Host.nestingLimit < brackets e then .error .badText
      else .ok ⟨source, function ⟨functionName, angles.a0, angles.a1⟩ [] (.result e)⟩ := by
  obtain ⟨doc, hdoc⟩ := document_result hcheck he
  have hnamed : (Stmt.block [.result e]).Named := ⟨hn, trivial⟩
  obtain ⟨ss, last, source, hsimple, hcompile⟩ := compile_of_document hname hnamed hdoc
  obtain ⟨rfl, rfl⟩ := List.append_singleton_inj.mp
    (hsimple.symm.trans (show _ = [] ++ [Stmt.result e] from rfl))
  have hlimit : Host.nestingLimit < functionBrackets [] (.result e) ↔
      Host.nestingLimit < brackets e := by
    rw [functionBrackets, finalBrackets, Host.nestingLimit, List.map_nil, List.foldr_nil]
    omega
  simp only [hlimit] at hcompile
  exact ⟨source, hcompile⟩

end Names

/-- The function does what the program does. -/
theorem compiled_simulates {functionName : String} (hname : ¬Clashes functionName) (angles : Angles)
    {s : Stmt} (hn : s.Named) {ss : List Stmt} {last : Stmt}
    (hsimple : simpleStatements s = ss ++ [last]) (point : Point) :
    Simulates (· = ·) (evaluate angles s point)
      ((function ⟨functionName, angles.a0, angles.a1⟩ ss last).call .asDoubles
        point.x point.y point.z) := by
  have hall : AllSimple (ss ++ [last]) := hsimple ▸ allSimple_simpleStatements hn
  have hruns : evaluate angles s point =
      executeAll angles (initialState (σ := Float) (β := Bool) angles point.x point.y point.z)
        (ss ++ [last]) >>= State.result := by
    rw [← hsimple, executeAll_simpleStatements]
    rfl
  rw [hruns]
  exact function_simulates (w := ⟨functionName, angles.a0, angles.a1⟩) hname hall rfl rfl point.x
    point.y point.z

end HostWriter

/-- A program that reads `q` where `x` is not less than `y`. -/
def partlyUnbound : Program :=
  [.assign "r" (.variable "y"), .empty,
   .result (.conditional (.binary .less (.variable "x") (.variable "r")) (.variable "r")
     (.variable "q"))]

theorem partlyUnbound_named : (Stmt.block partlyUnbound).Named := by
  have hr : IsName "r" := isName_iff.mpr ⟨'r', [], rfl, by decide, by simp, by decide⟩
  have hx : IsName "x" := HostWriter.isName_given (by decide)
  have hy : IsName "y" := HostWriter.isName_given (by decide)
  have hq : IsName "q" := isName_iff.mpr ⟨'q', [], rfl, by decide, by simp, by decide⟩
  exact ⟨⟨hr, hy⟩, trivial, ⟨⟨hx, hr⟩, hr, hq⟩, trivial⟩

/-- Differences in the right operands of differences, such as `x - (x - (x - x))`. -/
def differences : Nat → Expr
  | 0 => .variable "x"
  | n + 1 => .binary .sub (.variable "x") (differences n)

section Differences

variable (n : Nat)

theorem differences_named : (differences n).Named := by
  have hx : IsName "x" := HostWriter.isName_given (by decide)
  induction n with
  | zero => exact hx
  | succ n ih => exact ⟨hx, ih⟩

theorem differences_numbers : (differences n).numbers = [] := by
  induction n with
  | zero => rfl
  | succ n ih => exact ih

theorem differences_normal : (differences n).normal = differences n := by
  induction n with
  | zero => rfl
  | succ n ih => exact congrArg (Expr.binary .sub (.variable "x")) ih

theorem differences_written (w : HostWriter) : ∃ r, w.expr (differences n) = .ok r := by
  induction n with
  | zero => exact ⟨_, rfl⟩
  | succ n ih =>
    obtain ⟨r, hr⟩ := ih
    rw [differences, HostWriter.expr, hr]
    exact ⟨_, rfl⟩

theorem rank_differences : HostWriter.rank (differences (n + 1)) = 5 := rfl

theorem brackets_differences : HostWriter.brackets (differences (n + 1)) = n := by
  induction n with
  | zero => rfl
  | succ n ih =>
    rw [differences, HostWriter.brackets, ih, rank_differences]
    exact Nat.max_eq_right (Nat.zero_le _)

theorem differences_evaluated {angles : Angles} {env : Env Float Bool} {x : Float}
    (hx : env.get? "x" = some (.scalar x)) :
    ∃ y, evalExpr angles env (differences n) = .ok (.scalar y, env) := by
  induction n with
  | zero =>
    rw [differences, evalExpr, hx]
    exact ⟨x, rfl⟩
  | succ n ih =>
    obtain ⟨y, hy⟩ := ih
    rw [differences, evalExpr, evalExpr, hx]
    simp only [BinOp.connective?, hy, bind, Except.bind]
    exact ⟨_, rfl⟩

end Differences

end FieldLang
