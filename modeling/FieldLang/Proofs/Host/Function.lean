/-
The function that is generated for a program.

* `HostWriter.function` : its parameters and lines;
* `bound_tree`, `bound_line` : it binds variables only;
* `holds_enter`, `agrees_entry` : what its frame holds before the first statement;
* `function_simulates` : it yields what the program does.
-/
import FieldLang.Proofs.Host.Lines

namespace FieldLang.HostWriter

variable {w : HostWriter}

/-! ### The names that are bound -/

/-- The names that variables of programs are spelled as. -/
def IsVariable (w : HostWriter) (n : String) : Prop := ∃ name, IsName name ∧ n = w.variableText name

theorem boundByAll_eq (es : List HostExpr) : boundByAll es = es.flatMap HostExpr.bound := by
  induction es with
  | nil => rfl
  | cons e es ih => rw [boundByAll, ih, List.flatMap_cons]

theorem bound_numberTree (value : Float) : (numberTree value).bound = [] := by
  have hmag : ∀ mag, (magnitudeTree mag).bound = [] := by
    intro mag
    rw [magnitudeTree]
    split <;> rfl
  rw [numberTree]
  split
  · rfl
  · rfl
  · rfl
  · exact hmag _
  · exact hmag _

theorem bound_extraTrees (f : Builtin) : (extraTrees f).flatMap HostExpr.bound = [] := by
  cases f <;> rfl

theorem bound_stepped (name : String) (op : StepOp) : (w.stepped name op).bound = [] := rfl

/-- The tree of an expression binds variables only. -/
theorem bound_tree {e : Expr} (hn : e.Named) : ∀ n ∈ (w.tree e).bound, IsVariable w n := by
  -- only a step binds a name by itself
  induction e using Expr.induction with
  | number value =>
    rw [tree, bound_numberTree]
    simp
  | name name =>
    rw [tree, HostExpr.bound]
    simp
  | negate operand ih =>
    rw [tree, HostExpr.bound]
    exact ih hn
  | binary op lhs rhs ihl ihr =>
    intro n hm
    have hm : n ∈ (w.tree lhs).bound ++ (w.tree rhs).bound := by
      rw [tree] at hm
      split at hm
      · simpa [HostExpr.bound, boundByAll] using hm
      · simpa [HostExpr.bound] using hm
    rcases List.mem_append.mp hm with hm | hm
    · exact ihl hn.1 n hm
    · exact ihr hn.2 n hm
  | conditional condition ifTrue ifFalse ihc iht ihf =>
    intro n hm
    rw [tree, HostExpr.bound] at hm
    rcases List.mem_append.mp hm with hm | hm
    · rcases List.mem_append.mp hm with hm | hm
      · exact iht hn.2.1 n hm
      · exact ihc hn.1 n hm
    · exact ihf hn.2.2 n hm
  | call f args ih =>
    have hargs : ∀ n ∈ (w.trees args).flatMap HostExpr.bound, IsVariable w n := by
      intro n hm
      rw [trees_eq_map, List.flatMap_map] at hm
      obtain ⟨e, he, hm⟩ := List.mem_flatMap.mp hm
      exact ih e he (namedAll_iff.mp hn e he) n hm
    intro n hm
    rw [tree, HostExpr.bound, boundByAll_eq, List.flatMap_append, bound_extraTrees,
      List.append_nil, gathered_eq] at hm
    split at hm
    · rw [List.flatMap_cons, List.flatMap_nil, List.append_nil, HostExpr.bound, boundByAll_eq] at hm
      exact hargs n hm
    · exact hargs n hm
  | step name op =>
    intro n hm
    rw [tree, HostExpr.bound, bound_stepped, List.mem_singleton] at hm
    exact ⟨name, hn, hm⟩
  | misplaced display => exact hn.elim

theorem bound_names {names : List String} (hn : ∀ name ∈ names, IsName name) :
    ∀ n ∈ names.map w.variableText, IsVariable w n := by
  intro n hm
  obtain ⟨name, hmem, rfl⟩ := List.mem_map.mp hm
  exact ⟨name, hn name hmem, rfl⟩

/-- The line of a statement binds variables only. -/
theorem bound_line {s : Stmt} (hn : s.Named) : ∀ n ∈ (w.line s).bound, IsVariable w n := by
  intro n hm
  match s with
  | .result value =>
    rcases step_or_ne value with ⟨name, op, rfl⟩ | hother
    · rw [line, HostStmt.bound, bound_stepped, List.append_nil] at hm
      exact ⟨name, hn, List.mem_singleton.mp hm⟩
    · rw [line_result w hother] at hm
      exact bound_tree hn n hm
  | .assign name value =>
    rw [line, HostStmt.bound] at hm
    rcases List.mem_append.mp hm with hm | hm
    · exact ⟨name, hn.1, List.mem_singleton.mp hm⟩
    · exact bound_tree hn.2 n hm
  | .unpack names value =>
    rw [line, HostStmt.bound] at hm
    rcases List.mem_append.mp hm with hm | hm
    · exact bound_names hn.2.1 n hm
    · exact bound_tree hn.2.2 n hm
  | .assignEach names values =>
    obtain ⟨hne, hnames, hlength, hvalues⟩ := hn
    rcases names with _ | ⟨name, _ | ⟨name', names⟩⟩
    · exact absurd rfl hne
    · obtain ⟨value, rfl⟩ := List.length_eq_one_iff.mp hlength
      rw [line, HostStmt.bound] at hm
      rcases List.mem_append.mp hm with hm | hm
      · exact ⟨name, hnames name (List.mem_cons_self ..), List.mem_singleton.mp hm⟩
      · exact bound_tree hvalues.1 n hm
    · rw [line, HostStmt.bound] at hm
      · rcases List.mem_append.mp hm with hm | hm
        · exact bound_names hnames n hm
        · rw [HostExpr.bound, boundByAll_eq, List.flatMap_map] at hm
          obtain ⟨e, he, hm⟩ := List.mem_flatMap.mp hm
          exact bound_tree (namedAll_iff.mp hvalues e he) n hm
      · simp
  | .block _ | .empty | .misplaced _ => exact absurd hm (by simp [line, HostStmt.bound])

/-- The last lines bind variables only. -/
theorem bound_finalLines {s : Stmt} (hn : s.Named) :
    ∀ n ∈ (w.finalLines s).flatMap HostStmt.bound, IsVariable w n := by
  intro n hm
  match s with
  | .result value =>
    rw [finalLines, List.flatMap_singleton] at hm
    exact bound_tree hn n hm
  | .assign name value =>
    rw [finalLines, List.flatMap_cons, List.flatMap_singleton] at hm
    rcases List.mem_append.mp hm with hm | hm
    · exact bound_line hn n hm
    · cases hm
  | .unpack names value =>
    rw [finalLines, List.flatMap_cons, List.flatMap_singleton] at hm
    rcases List.mem_append.mp hm with hm | hm
    · exact bound_line hn n hm
    · have hm : n ∈ boundByAll (names.map fun name => .name (w.variableText name)) := hm
      rw [boundByAll_eq, List.flatMap_map] at hm
      obtain ⟨name, -, hm⟩ := List.mem_flatMap.mp hm
      cases hm
  | .assignEach names values =>
    rw [finalLines, List.flatMap_cons, List.flatMap_singleton] at hm
    rcases List.mem_append.mp hm with hm | hm
    · exact bound_line hn n hm
    · revert hm
      cases names.getLast? <;> simp [HostStmt.bound, HostExpr.bound]
  | .block _ | .empty | .misplaced _ => cases hm

/-! ### The function -/

/-- The function of a program with the last statement `last`, after the others. -/
def function (w : HostWriter) (ss : List Stmt) (last : Stmt) : HostFunction where
  name := w.functionName
  parameters := ["x", "y", "z"]
  body := .assign (.name "a0") (numberTree w.a0) :: .assign (.name "a1") (numberTree w.a1) ::
    (ss.map w.line ++ w.finalLines last)

section Function

variable {angles : Angles} {ss : List Stmt} {last : Stmt}

/-- Statements that generated functions have lines for. -/
def AllSimple (ss : List Stmt) : Prop :=
  ∀ s ∈ ss, s.Named ∧ (∀ statements, s ≠ .block statements) ∧ s ≠ .empty

/-- The function binds no name that it needs of the host. -/
theorem locals_not_global (hn : AllSimple (ss ++ [last])) :
    ∀ n ∈ (w.function ss last).locals, n ∉ Host.globalNames := by
  intro n hm
  have hvariable : IsVariable w n → n ∉ Host.globalNames := by
    rintro ⟨name, -, rfl⟩
    exact variableText_not_mem name
  rcases List.mem_append.mp hm with hm | hm
  -- a parameter, an angle, or a variable that a line binds
  · have hparameters : ∀ p ∈ ["x", "y", "z"], p ∉ Host.globalNames := by decide
    exact hparameters n hm
  · have hangle : ∀ a ∈ ["a0", "a1"], ∀ value,
        n ∈ (HostStmt.assign (.name a) (numberTree value)).bound → n ∉ Host.globalNames := by
      intro a ha value hm
      rw [HostStmt.bound, bound_numberTree, List.append_nil] at hm
      obtain rfl : n = a := List.mem_singleton.mp hm
      have hangles : ∀ a ∈ ["a0", "a1"], a ∉ Host.globalNames := by decide
      exact hangles n ha
    rw [function, List.flatMap_cons, List.flatMap_cons, List.flatMap_append, List.flatMap_map] at hm
    rcases List.mem_append.mp hm with hm | hm
    · exact hangle "a0" (by simp) _ hm
    rcases List.mem_append.mp hm with hm | hm
    · exact hangle "a1" (by simp) _ hm
    rcases List.mem_append.mp hm with hm | hm
    · obtain ⟨s, hs, hm⟩ := List.mem_flatMap.mp hm
      exact hvariable (bound_line (hn s (List.mem_append_left _ hs)).1 n hm)
    · exact hvariable (bound_finalLines (hn last (by simp)).1 n hm)

theorem lookup_unassigned (names : List String) (name : String) :
    (names.map fun n => (n, (none : Option HostValue))).lookup name =
      if name ∈ names then some none else none := by
  induction names with
  | nil => rfl
  | cons n names ih =>
    rw [List.map_cons, List.lookup_cons]
    by_cases heq : name = n
    · simp [heq]
    · have hne : (name == n) = false := by simpa using heq
      rw [hne, ih]
      simp [heq]

/-- Before anything is bound, the frame holds no variable. -/
theorem holds_unassigned (hn : AllSimple (ss ++ [last])) :
    Holds w [] ⟨w.functionName, (w.function ss last).locals.map fun name => (name, none)⟩ where
  function := rfl
  bound name v _ hv := by cases hv
  unbound name _ _ v := by
    rw [lookup_unassigned]
    split <;> simp
  globals name hm := by
    rw [lookup_unassigned, if_neg fun hlocal => locals_not_global hn name hlocal hm]

variable (hw : ¬Clashes w.functionName)
include hw

/-- Binding a parameter or an angle. -/
theorem holds_set_given {env : Env Float Bool} {frame : HostFrame} (h : Holds w env frame)
    (name : String) (hname : name ∈ givenNames) (x : Float) :
    Holds w (env.set name (.scalar x)) (frame.set name (.real .array x)) := by
  have := h.set (isName_given hname) (.scalar x)
  rwa [variableText_given hw hname] at this

/-- The frame at the first line holds the coordinates. -/
theorem holds_enter (hn : AllSimple (ss ++ [last])) (x y z : Float) :
    Holds w [("x", .scalar x), ("y", .scalar y), ("z", .scalar z)]
      ((w.function ss last).enter ([x, y, z].map (.real .array))) := by
  have hx := holds_set_given hw (holds_unassigned hn) "x" (by decide) x
  have hy := holds_set_given hw hx "y" (by decide) y
  exact holds_set_given hw hy "z" (by decide) z

/-- The first lines bind the angles. -/
theorem agrees_entry (hn : AllSimple (ss ++ [last])) (h₀ : w.a0 = angles.a0)
    (h₁ : w.a1 = angles.a1) (x y z : Float) :
    ∃ frame, Agrees w angles (initialEnv angles x y z) frame ∧
      runLines .asDoubles ((w.function ss last).enter ([x, y, z].map (.real .array)))
        (w.function ss last).body =
      runLines .asDoubles frame (ss.map w.line ++ w.finalLines last) := by
  have henter := holds_enter hw hn x y z
  have ha0 := holds_set_given hw henter "a0" (by decide) angles.a0
  have ha1 := holds_set_given hw ha0 "a1" (by decide) angles.a1
  refine ⟨_, ⟨ha1, rfl, rfl⟩, ?_⟩
  have hbody : (w.function ss last).body = .assign (.name "a0") (numberTree w.a0) ::
      .assign (.name "a1") (numberTree w.a1) :: (ss.map w.line ++ w.finalLines last) := rfl
  rw [hbody, runLines, evalHost_numberTree henter, h₀, h₁]
  simp only [bind, Except.bind]
  rw [runLines, evalHost_numberTree ha0]
  rfl

/-- The function yields what the program does. -/
theorem function_simulates (hn : AllSimple (ss ++ [last])) (h₀ : w.a0 = angles.a0)
    (h₁ : w.a1 = angles.a1) (x y z : Float) :
    Simulates (· = ·)
      (executeAll angles (initialState (σ := Float) (β := Bool) angles x y z) (ss ++ [last]) >>=
        State.result)
      ((w.function ss last).call .asDoubles x y z) := by
  obtain ⟨frame, hagrees, hlines⟩ := agrees_entry hw hn h₀ h₁ x y z
  rw [HostFunction.call, hlines, ← bind_pure (executeAll angles _ _ >>= State.result)]
  refine (lines_simulate hw hn _ frame hagrees).bind ?_
  rintro r v rfl
  exact .ok rfl

end Function

end FieldLang.HostWriter
