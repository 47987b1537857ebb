/-
What a generated function may be called.

* `document_written` : the writer refuses a program under both of two names, or under none;
* `SameUnder`, `sameUnder_of_not_clashes` : the same program under two names;
* `call_variable` : a program that only reads a variable;
* `functionName_safe_iff` : the names under which every program does the same.

Design notes: that a name is accepted does not make it safe. It may be the spelling that a variable
is given to keep it apart from a reserved word, and it may be a parameter, which then can no longer
be read. The host reads names beyond ASCII in a normal form, so that a name is safe is only shown of the
others.
-/
import FieldLang.Proofs.Host.Compiled
import FieldLang.Proofs.Host.Renaming

namespace FieldLang

namespace HostWriter

open Writing

variable {w w' : HostWriter}

/-! ### Documents -/

/-- Both results are written, or neither is, for the same reason. -/
abbrev BothWritten {α β : Type} : Written α → Written β → Prop := Alike (· = ·) fun _ _ => True

section Documents

theorem target_written (w w' : HostWriter) (name : String) :
    BothWritten (w.target name) (w'.target name) := by
  rw [target, target]
  split
  · exact .error rfl
  · exact .ok trivial

theorem mapM_written {α β γ : Type} {f : α → Written β} {g : α → Written γ} {as : List α}
    (h : ∀ a ∈ as, BothWritten (f a) (g a)) : BothWritten (as.mapM f) (as.mapM g) := by
  induction as with
  | nil => exact .ok trivial
  | cons a as ih =>
    rw [List.mapM_cons, List.mapM_cons]
    refine (h a List.mem_cons_self).bind fun _ _ _ => ?_
    exact (ih fun a ha => h a (List.mem_cons_of_mem _ ha)).bind fun _ _ _ => .ok trivial

theorem targets_written (w w' : HostWriter) (names : List String) :
    BothWritten (w.targets names) (w'.targets names) := by
  refine (mapM_written fun name _ => target_written w w' name).bind fun texts texts' _ => ?_
  split <;> split <;> exact .ok trivial

theorem exprs_written {es : List Expr} (h : ∀ e ∈ es, BothWritten (w.expr e) (w'.expr e)) :
    BothWritten (w.exprs es) (w'.exprs es) := by
  induction es with
  | nil => exact .ok trivial
  | cons e es ih =>
    rw [exprs, exprs]
    refine (h e List.mem_cons_self).bind fun _ _ _ => ?_
    exact (ih fun e he => h e (List.mem_cons_of_mem _ he)).bind fun _ _ _ => .ok trivial

theorem expr_written (w w' : HostWriter) (e : Expr) : BothWritten (w.expr e) (w'.expr e) := by
  induction e using Expr.induction with
  | number value => exact .ok trivial
  | name name => exact .ok trivial
  | negate operand ih =>
    rw [expr, expr]
    exact ih.bind fun _ _ _ => .ok trivial
  | binary op lhs rhs ihl ihr =>
    rw [expr, expr]
    exact ihl.bind fun _ _ _ => ihr.bind fun _ _ _ => .ok trivial
  | conditional condition ifTrue ifFalse ihc iht ihf =>
    rw [expr, expr]
    exact ihc.bind fun _ _ _ => iht.bind fun _ _ _ => ihf.bind fun _ _ _ => .ok trivial
  | call f args ih =>
    rw [expr, expr]
    exact (exprs_written ih).bind fun _ _ _ => .ok trivial
  | step name op =>
    rw [expr, expr]
    exact (target_written w w' name).bind fun _ _ _ => .ok trivial
  | misplaced display => exact .error rfl

theorem statement_written (w w' : HostWriter) (s : Stmt) :
    BothWritten (w.statement s) (w'.statement s) := by
  match s with
  | .result value =>
    rcases step_or_ne value with ⟨name, op, rfl⟩ | hother
    · exact (target_written w w' name).bind fun _ _ _ => .ok trivial
    · rw [statement_result hother, statement_result hother]
      exact (expr_written w w' value).bind fun _ _ _ => .ok trivial
  | .assign name value =>
    exact (target_written w w' name).bind fun _ _ _ =>
      (expr_written w w' value).bind fun _ _ _ => .ok trivial
  | .unpack names value =>
    exact (targets_written w w' names).bind fun _ _ _ =>
      (expr_written w w' value).bind fun _ _ _ => .ok trivial
  | .assignEach [name] values =>
    refine (target_written w w' name).bind fun _ _ _ => ?_
    cases values with
    | nil => exact .error rfl
    | cons value values => exact (expr_written w w' value).bind fun _ _ _ => .ok trivial
  | .assignEach [] values | .assignEach (_ :: _ :: _) values =>
    exact (exprs_written fun e _ => expr_written w w' e).bind fun _ _ _ =>
      (targets_written w w' _).bind fun _ _ _ => .ok trivial
  | .empty | .block _ | .misplaced _ => exact .error rfl

theorem finalStatement_written (w w' : HostWriter) (s : Stmt) :
    BothWritten (w.finalStatement s) (w'.finalStatement s) := by
  match s with
  | .result value => exact (expr_written w w' value).bind fun _ _ _ => .ok trivial
  | .assign name value => exact (statement_written w w' _).bind fun _ _ _ => .ok trivial
  | .unpack names value =>
    exact (statement_written w w' _).bind fun _ _ _ =>
      (targets_written w w' names).bind fun _ _ _ => .ok trivial
  | .assignEach names values =>
    refine (statement_written w w' _).bind fun _ _ _ => ?_
    cases names.getLast? with
    | none => exact .error rfl
    | some name => exact .ok trivial
  | .empty | .block _ | .misplaced _ => exact .error rfl

/-- The writer refuses a program under both names, or under none. -/
theorem document_written (hname : w.checkName = .ok ()) (hname' : w'.checkName = .ok ()) (s : Stmt) :
    BothWritten (w.document s) (w'.document s) := by
  have hcheck : BothWritten w.checkName w'.checkName := by
    rw [hname, hname']
    exact .ok trivial
  refine hcheck.bind fun _ _ _ => ?_
  dsimp only
  split
  · exact .error rfl
  · exact (mapM_written fun s _ => statement_written w w' s).bind fun _ _ _ =>
      (finalStatement_written w w' _).bind fun _ _ _ => .ok trivial

end Documents

/-- A name that the writer accepts and that the host takes as it is written. -/
structure Accepted (functionName : String) : Prop where
  checked : checkName ⟨functionName, 0, 0⟩ = .ok ()
  ascii : ∀ c ∈ functionName.toList, c.toNat < 128

theorem Accepted.checkName {f : String} (h : Accepted f) (a0 a1 : Float) :
    checkName ⟨f, a0, a1⟩ = .ok () := h.checked

theorem accepted_default : Accepted defaultFunctionName :=
  ⟨checkName_ok.mpr ⟨by decide, by decide, by decide⟩, by decide⟩

/-- A program is refused under both names for the same reason, or it is compiled under both, and the
functions yield the same numbers and the same faults. -/
def SameUnder (f g : String) (angles : Angles) (s : Stmt) : Prop :=
  Alike (· = ·)
    (fun c c' : Compiled => ∀ point,
      Alike (SameFault ⟨f, angles.a0, angles.a1⟩ ⟨g, angles.a0, angles.a1⟩) (· = ·)
        (c.call point) (c'.call point))
    (compile angles f s) (compile angles g s)

theorem compile_of_document_error {f : String} {angles : Angles} {s : Stmt} {e : WriteError}
    (h : document ⟨f, angles.a0, angles.a1⟩ s = .error e) :
    compile angles f s = .error (.write e) := by
  have htarget : Target.ofName "python" = .ok .python := rfl
  simp only [compile, generate, htarget, h, bind, Except.bind, mapError_error]

section Safe

variable {f g : String} (hf : Accepted f) (hg : Accepted g) (hf' : ¬Clashes f) (hg' : ¬Clashes g)
  (hfc : f ≠ Host.constantName) (hgc : g ≠ Host.constantName)
include hf hg hf' hg' hfc hgc

/-- Every program does the same under names that do not clash. -/
theorem sameUnder_of_not_clashes (angles : Angles) {s : Stmt} (hn : s.Named) :
    SameUnder f g angles s := by
  have hdocument := document_written (hf.checkName angles.a0 angles.a1)
    (hg.checkName angles.a0 angles.a1) s
  generalize hd : document ⟨f, angles.a0, angles.a1⟩ s = r at hdocument
  generalize hd' : document ⟨g, angles.a0, angles.a1⟩ s = r' at hdocument
  cases hdocument with
  | error heq =>
    subst heq
    rw [SameUnder, compile_of_document_error hd, compile_of_document_error hd']
    exact .error rfl
  | ok _ =>
    obtain ⟨ss, last, source, hsimple, hcompile⟩ := compile_of_document hfc hn hd
    obtain ⟨ss', last', source', hsimple', hcompile'⟩ := compile_of_document hgc hn hd'
    obtain ⟨rfl, rfl⟩ := List.append_singleton_inj.mp (hsimple.symm.trans hsimple')
    have hall : ∀ t ∈ ss ++ [last], t.Named := fun t ht =>
      (allSimple_simpleStatements hn t (hsimple ▸ ht)).1
    rw [SameUnder, hcompile, hcompile']
    have hw : ¬Clashes (HostWriter.mk f angles.a0 angles.a1).functionName := hf'
    have hw' : ¬Clashes (HostWriter.mk g angles.a0 angles.a1).functionName := hg'
    -- the name makes no difference to the brackets
    split
    · exact .error rfl
    · exact .ok fun point => functions_alike hw hw' rfl rfl hall point.x point.y point.z

end Safe

/-! ### A program that reads a variable -/

section Reading

variable {f name : String}

/-- What a function returns of the value of its last line. -/
def returned (v : HostValue) : Except HostFault Float :=
  match v with
  | .tuple items => .error (.vectorResult items.length)
  | v => v.toFloat

theorem returned_ne_undefined (v : HostValue) (n : String) : returned v ≠ .error (.undefined n) := by
  have hwhole : ∀ k, wholeToFloat k ≠ .error (.undefined n) := by
    intro k
    rw [wholeToFloat]
    split <;> simp
  cases v with
  | whole o k => exact hwhole k
  | _ => simp [returned, HostValue.toFloat]

/-- A literal has a value, and so does one with a sign. -/
theorem exists_evalHost_numberTree (literals : Literals) (frame : HostFrame)
    (hframe : ∀ g ∈ ["inf", "nan"], frame.locals.lookup g = none) (value : Float) :
    ∃ v, evalHost literals frame (numberTree value) = .ok (v, frame) := by
  have hsigned {e : HostExpr} {v u : HostValue} (he : evalHost literals frame e = .ok (v, frame))
      (hv : v.neg = .ok u) : ∃ u, evalHost literals frame (.negate e) = .ok (u, frame) := by
    rw [evalHost, he]
    simp only [bind, Except.bind, hv]
    exact ⟨u, rfl⟩
  have hinf : evalHost literals frame (.name "inf") = .ok (literals.real Double.infinity, frame) := by
    rw [evalHost, HostFrame.get, hframe "inf" (by decide)]
    rfl
  have hnan : evalHost literals frame (.name "nan") = .ok (literals.real Double.nan, frame) := by
    rw [evalHost, HostFrame.get, hframe "nan" (by decide)]
    rfl
  have hmagnitude : ∀ mag, ∃ v u, evalHost literals frame (magnitudeTree mag) = .ok (v, frame) ∧
      v.neg = .ok u := by
    intro mag
    rw [magnitudeTree]
    split <;> cases literals <;> exact ⟨_, _, rfl, rfl⟩
  -- what is not finite has a name, the rest is a literal
  rw [numberTree]
  split
  · exact ⟨_, hnan⟩
  · exact ⟨_, hinf⟩
  · cases literals <;> exact hsigned hinf rfl
  · obtain ⟨v, -, hv, -⟩ := hmagnitude _
    exact ⟨v, hv⟩
  · obtain ⟨v, u, hv, hu⟩ := hmagnitude _
    exact hsigned hv hu

/-- The coordinates as they are bound, the last one first. -/
def coordinateBindings (x y z : Float) : List (String × Option HostValue) :=
  [("z", some (.real .array z)), ("y", some (.real .array y)), ("x", some (.real .array x))]

/-- The frame in which a function of no variables reads its last line. -/
def givenFrame (f : String) (x y z : Float) (v₀ v₁ : HostValue) : HostFrame :=
  ⟨f, ("a1", some v₁) :: ("a0", some v₀) :: coordinateBindings x y z⟩

theorem lookup_givenFrame {f n : String} {x y z : Float} {v₀ v₁ : HostValue} :
    (n ∉ givenNames → (givenFrame f x y z v₀ v₁).locals.lookup n = none) ∧
      (n ∈ givenNames → ∃ v, (givenFrame f x y z v₀ v₁).locals.lookup n = some (some v)) := by
  simp only [givenNames, List.mem_cons, List.not_mem_nil, or_false, not_or]
  constructor
  · intro h
    simp [givenFrame, coordinateBindings, List.lookup_eq_none_iff, h]
  · rintro (rfl | rfl | rfl | rfl | rfl) <;> exact ⟨_, rfl⟩

theorem get_givenFrame {w : HostWriter} {literals : Literals} {f : String} {x y z : Float}
    {v₀ v₁ : HostValue} (h : w.variableText name ∉ givenNames) :
    (givenFrame f x y z v₀ v₁).get literals (w.variableText name) =
      if w.variableText name = f then .ok .function
      else .error (.undefined (w.variableText name)) :=
  get_of_lookup_none (lookup_givenFrame.1 h)

/-- The function of a program that reads a variable. -/
theorem call_variable (w : HostWriter) (name : String) (literals : Literals) (x y z : Float) :
    ∃ v₀ v₁, (w.function [] (.result (.variable name))).call literals x y z =
      (givenFrame w.functionName x y z v₀ v₁).get literals (w.variableText name) >>= returned := by
  have hlocals : (w.function [] (.result (.variable name))).locals = ["x", "y", "z", "a0", "a1"] := by
    simp [HostFunction.locals, function, finalLines, HostStmt.bound, bound_numberTree, tree,
      HostExpr.bound, HostTarget.toList]
  have henter : (w.function [] (.result (.variable name))).enter ([x, y, z].map (.real .array)) =
      ⟨w.functionName, coordinateBindings x y z ++ [("a0", none), ("a1", none)]⟩ := by
    rw [HostFunction.enter, hlocals]
    rfl
  have hbody : (w.function [] (.result (.variable name))).body =
      [.assign (.name "a0") (numberTree w.a0), .assign (.name "a1") (numberTree w.a1),
        .return (some (.name (w.variableText name)))] := rfl
  -- the angles are bound one after the other
  have hunbound₀ : ∀ g ∈ ["inf", "nan"],
      (coordinateBindings x y z ++ [("a0", none), ("a1", none)]).lookup g = none :=
    List.forall_mem_cons.mpr ⟨rfl, List.forall_mem_singleton.mpr rfl⟩
  obtain ⟨v₀, h₀⟩ := exists_evalHost_numberTree literals ⟨w.functionName, _⟩ hunbound₀ w.a0
  have hunbound₁ : ∀ g ∈ ["inf", "nan"],
      (("a0", some v₀) :: coordinateBindings x y z ++ [("a1", none)]).lookup g = none :=
    List.forall_mem_cons.mpr ⟨rfl, List.forall_mem_singleton.mpr rfl⟩
  obtain ⟨v₁, h₁⟩ := exists_evalHost_numberTree literals ⟨w.functionName, _⟩ hunbound₁ w.a1
  have hset₀ : HostFrame.set
      ⟨w.functionName, coordinateBindings x y z ++ [("a0", none), ("a1", none)]⟩ "a0" v₀ =
        ⟨w.functionName, ("a0", some v₀) :: coordinateBindings x y z ++ [("a1", none)]⟩ := rfl
  have hset₁ : HostFrame.set
      ⟨w.functionName, ("a0", some v₀) :: coordinateBindings x y z ++ [("a1", none)]⟩ "a1" v₁ =
        givenFrame w.functionName x y z v₀ v₁ := rfl
  refine ⟨v₀, v₁, ?_⟩
  rw [HostFunction.call, henter, hbody, runLines, h₀]
  simp only [bind, Except.bind]
  rw [hset₀, runLines, h₁]
  simp only [bind, Except.bind]
  rw [hset₁, runLines, evalHost]
  simp only [bind, Except.bind, pure, Except.pure]
  cases (givenFrame w.functionName x y z v₀ v₁).get literals (w.variableText name) with
  | error fault => rfl
  | ok v => cases v <;> rfl

/-- A program that reads a variable is compiled. -/
theorem compile_variable (hf : Accepted f) (hfc : f ≠ Host.constantName) (hn : IsName name)
    (angles : Angles) : ∃ source, compile angles f (.block [.result (.variable name)]) =
      .ok ⟨source, function ⟨f, angles.a0, angles.a1⟩ [] (.result (.variable name))⟩ :=
  compile_result (e := .variable name) (hf.checkName angles.a0 angles.a1) hfc hn rfl

end Reading

/-! ### Names that clash -/

section Clashing

variable {f g name : String}

/-- Reading a variable is the same under names under which the program is the same. -/
theorem alike_of_sameUnder (hf : Accepted f) (hg : Accepted g) (hfc : f ≠ Host.constantName)
    (hgc : g ≠ Host.constantName) (hn : IsName name)
    (h : SameUnder f g ⟨0, 0⟩ (.block [.result (.variable name)])) :
    ∃ v₀ v₁ u₀ u₁, Alike (SameFault ⟨f, 0, 0⟩ ⟨g, 0, 0⟩) (· = ·)
      ((givenFrame f 0 0 0 v₀ v₁).get .asWritten (variableText ⟨f, 0, 0⟩ name) >>= returned)
      ((givenFrame g 0 0 0 u₀ u₁).get .asWritten (variableText ⟨g, 0, 0⟩ name) >>= returned) := by
  obtain ⟨source, hcompile⟩ := compile_variable hf hfc hn ⟨0, 0⟩
  obtain ⟨source', hcompile'⟩ := compile_variable hg hgc hn ⟨0, 0⟩
  rw [SameUnder, hcompile, hcompile'] at h
  obtain ⟨hcalls⟩ | - := h
  have hpoint := hcalls ⟨0, 0, 0⟩
  obtain ⟨v₀, v₁, hcall⟩ := call_variable ⟨f, 0, 0⟩ name .asWritten 0 0 0
  obtain ⟨u₀, u₁, hcall'⟩ := call_variable ⟨g, 0, 0⟩ name .asWritten 0 0 0
  rw [Compiled.call, Compiled.call, hcall, hcall'] at hpoint
  exact ⟨v₀, v₁, u₀, u₁, hpoint⟩

/-- A fault that is no unknown name is not the same as one. -/
theorem SameFault.undefined_iff {w w' : HostWriter} {fault fault' : HostFault}
    (h : SameFault w w' fault fault') : (∃ n, fault = .undefined n) ↔ ∃ n, fault' = .undefined n := by
  cases h with
  | refl => rfl
  | unassigned h => simp
  | undefined h => simp

/-- A parameter of the function's own name cannot be read. -/
theorem not_sameUnder_given (hf : Accepted f) (h : f ∈ givenNames) :
    ¬SameUnder f defaultFunctionName ⟨0, 0⟩ (.block [.result (.variable f)]) := by
  intro hsame
  have hfc : ∀ name ∈ givenNames, name ≠ Host.constantName := by decide
  obtain ⟨v₀, v₁, u₀, u₁, halike⟩ := alike_of_sameUnder hf accepted_default (hfc f h) (by decide)
    (isName_given h) hsame
  have htext : variableText ⟨f, 0, 0⟩ f = f ++ "_" := variableText_of_taken (.inr rfl)
  have hne : variableText ⟨f, 0, 0⟩ f ≠ f :=
    htext ▸ append_underscore_ne (isIdentifier_of_isName (isName_given h))
  have hfree : variableText ⟨f, 0, 0⟩ f ∉ givenNames := htext ▸ append_underscore_not_mem f (by decide)
  obtain ⟨v, hv⟩ : ∃ v,
      (givenFrame defaultFunctionName 0 0 0 u₀ u₁).locals.lookup f = some (some v) :=
    lookup_givenFrame.2 h
  have hread : (givenFrame defaultFunctionName 0 0 0 u₀ u₁).get .asWritten
      (variableText ⟨defaultFunctionName, 0, 0⟩ f) = .ok v := by
    rw [variableText_given (w := ⟨defaultFunctionName, 0, 0⟩) not_clashes_default h, HostFrame.get, hv]
  rw [get_givenFrame hfree, if_neg hne, hread] at halike
  change Alike _ _ (.error _) (returned v) at halike
  generalize hr : returned v = r at halike
  obtain - | hfault := halike
  obtain ⟨n, rfl⟩ := hfault.undefined_iff.mp ⟨_, rfl⟩
  exact returned_ne_undefined v n hr

/-- A variable that is spelled like the function is read as the function. -/
theorem not_sameUnder_reserved (hf : Accepted f) (hreserved : name ∈ Host.reservedWords)
    (hn : IsName name) (heq : f = name ++ "_") :
    ¬SameUnder f defaultFunctionName ⟨0, 0⟩ (.block [.result (.variable name)]) := by
  intro hsame
  have hfc : f ≠ Host.constantName := by
    rintro rfl
    obtain ⟨c, rest, hname, hc, -⟩ := isIdentifier_of_isName hn
    have hfirst := congrArg (fun s => s.toList.head?) heq
    simp only [String.toList_append, hname, List.cons_append, List.head?_cons] at hfirst
    cases hfirst
    exact absurd hc (by decide)
  obtain ⟨v₀, v₁, u₀, u₁, halike⟩ := alike_of_sameUnder hf accepted_default hfc (by decide) hn hsame
  have hspelled : ∀ g : String, variableText ⟨g, 0, 0⟩ name = name ++ "_" := fun g =>
    variableText_of_taken (.inl hreserved)
  have hfree : ∀ g : String, variableText ⟨g, 0, 0⟩ name ∉ givenNames := fun g =>
    hspelled g ▸ append_underscore_not_mem name (by decide)
  have hfunction : variableText ⟨f, 0, 0⟩ name = f := (hspelled f).trans heq.symm
  have hother : variableText ⟨defaultFunctionName, 0, 0⟩ name ≠ defaultFunctionName :=
    variableText_ne_function (w := ⟨defaultFunctionName, 0, 0⟩) not_clashes_default hn
  rw [get_givenFrame (hfree f), if_pos hfunction, get_givenFrame (hfree _), if_neg hother] at halike
  change Alike _ _ (.error (HostFault.notNumber "function")) (.error _) at halike
  obtain - | hfault := halike
  obtain ⟨n, hn⟩ := hfault.undefined_iff.mpr ⟨_, rfl⟩
  cases hn

/-- Nothing is compiled under a name that the host lets nobody bind. -/
theorem not_sameUnder_constant (hf : Accepted Host.constantName) (hn : IsName name) :
    ¬SameUnder Host.constantName defaultFunctionName ⟨0, 0⟩ (.block [.result (.variable name)]) := by
  intro hsame
  obtain ⟨doc, hdoc⟩ := document_result (e := .variable name) hf.checked rfl
  have hnamed : (Stmt.block [.result (.variable name)]).Named := ⟨hn, trivial⟩
  have hcompile : compile ⟨0, 0⟩ Host.constantName _ = _ := compile_constantName hnamed hdoc
  obtain ⟨source, hcompile'⟩ := compile_variable accepted_default (by decide) hn ⟨0, 0⟩
  rw [SameUnder, hcompile, hcompile'] at hsame
  cases hsame

/-- Some program is not the same under a name that clashes. -/
theorem exists_not_sameUnder (hf : Accepted f) (h : Clashes f ∨ f = Host.constantName) :
    ∃ name, IsName name ∧
      ¬SameUnder f defaultFunctionName ⟨0, 0⟩ (.block [.result (.variable name)]) := by
  rcases h with (hgiven | ⟨name, hreserved, hn, heq⟩) | rfl
  · exact ⟨f, isName_given hgiven, not_sameUnder_given hf hgiven⟩
  · exact ⟨name, hn, not_sameUnder_reserved hf hreserved hn heq⟩
  · have hx : IsName "x" := isName_given (by decide)
    exact ⟨"x", hx, not_sameUnder_constant hf hx⟩

end Clashing

end HostWriter

open HostWriter

/-- A program that reads a variable has a source. -/
theorem exists_source_variable {name : String} (hn : IsName name) :
    ∃ source, (parse none source).outcome = .ok [.result (.variable name)] := by
  obtain ⟨source, -, hparse, -⟩ := unparse_parse (s := .block [.result (.variable name)]) ⟨hn, trivial⟩
    (by simp [Stmt.numbers, numbersOfStatements, Expr.numbers]) (show (0 : Int) < 80 by decide)
  exact ⟨source, hparse⟩

/-- Under any name that is accepted, variables are spelled apart from each other, from the keywords of
the host and from the names that it needs. A variable is spelled like the function only if it is a
reserved word and the function is called like it with an underscore; a parameter or an angle keeps its
spelling unless the function is called like it. The names in ASCII of which neither holds for a variable
of a program, and that the host lets a function have, are those under which every program does the
same. -/
theorem functionName_safe_iff {f : String} {a0 a1 : Float} (hf : checkName ⟨f, a0, a1⟩ = .ok ()) :
    (∀ n n', IsIdentifier n → IsIdentifier n' →
      variableText ⟨f, a0, a1⟩ n = variableText ⟨f, a0, a1⟩ n' → n = n') ∧
    (∀ n, variableText ⟨f, a0, a1⟩ n ∉ Host.keywords ∧ variableText ⟨f, a0, a1⟩ n ∉ Host.globalNames) ∧
    (∀ n, IsIdentifier n →
      (variableText ⟨f, a0, a1⟩ n = f ↔ n ∈ Host.reservedWords ∧ f = n ++ "_")) ∧
    (∀ n ∈ givenNames, variableText ⟨f, a0, a1⟩ n = n ↔ n ≠ f) ∧
    ((∀ c ∈ f.toList, c.toNat < 128) →
      (¬Clashes f ∧ f ≠ Host.constantName ↔
        ∀ g, Accepted g → ¬Clashes g → g ≠ Host.constantName →
          ∀ policy source p, (parse policy source).outcome = .ok p →
            ∀ angles, SameUnder f g angles (.block p))) := by
  refine ⟨fun n n' hn hn' => variableText_injective hn hn',
    fun n => ⟨variableText_not_mem_keywords n, variableText_not_mem n⟩,
    fun n hn => variableText_eq_function_iff hn, fun n hn => variableText_given_iff hn,
    fun hascii => ?_⟩
  have hf : Accepted f := ⟨hf, hascii⟩
  constructor
  · rintro ⟨hclash, hconstant⟩ g hg hgclash hgconstant policy source p hp angles
    exact sameUnder_of_not_clashes hf hg hclash hgclash hconstant hgconstant angles (named_of_parse hp)
  · intro hsame
    by_contra hclash
    rw [not_and_or, not_not, not_not] at hclash
    obtain ⟨name, hn, hdiffers⟩ := exists_not_sameUnder hf hclash
    obtain ⟨source, hp⟩ := exists_source_variable hn
    exact hdiffers (hsame _ accepted_default not_clashes_default (by decide) none source _ hp ⟨0, 0⟩)

/-- A name that is accepted, and that a variable is spelled as. -/
theorem softKeyword_clashes : Accepted "match_" ∧
    variableText ⟨"match_", 0, 0⟩ "match" = "match_" ∧
    ∃ g policy source p angles, Accepted g ∧ ¬Clashes g ∧ (parse policy source).outcome = .ok p ∧
      ¬SameUnder "match_" g angles (.block p) := by
  have hf : Accepted "match_" := ⟨checkName_ok.mpr ⟨by decide, by decide, by decide⟩, by decide⟩
  have hn : IsName "match" := isName_iff.mpr ⟨'m', _, rfl, by decide, by decide, by decide⟩
  obtain ⟨-, -, hspelled, -, hsafe⟩ := functionName_safe_iff hf.checked
  refine ⟨hf, (hspelled "match" (isIdentifier_of_isName hn)).mpr ⟨by decide, rfl⟩, ?_⟩
  by_contra hnone
  push Not at hnone
  refine ((hsafe hf.ascii).mpr fun g hg hgclash _ policy source p hp angles =>
    hnone g policy source p angles hg hgclash hp).1 (.inr ⟨"match", by decide, hn, rfl⟩)

end FieldLang
