/-
Statements of programs and lines of generated code.

* `runLine`, `runLines_cons` : what a line does that does not return;
* `line_simulates` : the line of a statement does what the statement does;
* `finalLines_simulates`, `lines_simulate` : the lines of a program return its result.
-/
import FieldLang.Eval.Field
import FieldLang.Proofs.Host.Simulation
import FieldLang.Proofs.Writing.Sentences

namespace FieldLang.HostWriter

/-- The frame that a line leaves. -/
def runLine (literals : Literals) (frame : HostFrame) : HostStmt → Except HostFault HostFrame
  | .assign (.name name) value => do
    let (v, frame) ← evalHost literals frame value
    return frame.set name v
  | .assign (.names names) value => do
    let (v, frame) ← evalHost literals frame value
    unpack frame names v
  | .expr value => do
    let (_, frame) ← evalHost literals frame value
    return frame
  | .return _ => .ok frame

theorem runLines_cons (literals : Literals) (frame : HostFrame) {l : HostStmt}
    (h : ∀ value, l ≠ .return value) (rest : List HostStmt) :
    runLines literals frame (l :: rest) =
      runLine literals frame l >>= fun frame => runLines literals frame rest := by
  match l with
  | .assign (.name name) value =>
    rw [runLines, runLine]
    simp only [bind, Except.bind, pure, Except.pure]
    cases evalHost literals frame value <;> rfl
  | .assign (.names names) value =>
    rw [runLines, runLine]
    simp only [bind, Except.bind]
    cases evalHost literals frame value <;> rfl
  | .expr value =>
    rw [runLines, runLine]
    simp only [bind, Except.bind, pure, Except.pure]
    cases evalHost literals frame value <;> rfl
  | .return value => exact absurd rfl (h value)

variable {w : HostWriter} {angles : Angles}

/-- Only the last statement returns. -/
theorem line_ne_return {s : Stmt} (hn : s.Named) (hblock : ∀ ss, s ≠ .block ss) (hne : s ≠ .empty)
    (value : Option HostExpr) : w.line s ≠ .return value := by
  match s with
  | .result e => cases e <;> simp [line]
  | .assign _ _ | .unpack _ _ | .assignEach [_] (_ :: _) | .assignEach (_ :: _ :: _) _ => simp [line]
  | .assignEach [] _ => exact absurd rfl hn.1
  | .assignEach [_] [] => exact absurd hn.2.2.1 (by simp)
  | .block ss => exact absurd rfl (hblock ss)
  | .empty => exact absurd rfl hne
  | .misplaced _ => exact hn.elim

/-! ### The value of the last line -/

/-- The number that a program yields, as the host returns it. -/
def SameNumber (x : Float) (v : HostValue) : Prop := v = .real .array x

/-- The variable that an assignment gives the value of the statement to. -/
def Latest (name : String) (state : SingleState) : Prop :=
  ∃ v, state.last = some v ∧ state.env.get? name = some v

theorem assignAll_latest {names : List String} {vs : List (Value Float Bool)}
    {env env' : Env Float Bool} (h : assignAll env (names.zip vs) = .ok env')
    (hlength : vs.length = names.length) {name : String} (hname : names.getLast? = some name) :
    ∃ v, vs.getLast? = some v ∧ env'.get? name = some v := by
  induction names generalizing vs env with
  | nil => cases hname
  | cons n names ih =>
    match vs, hlength with
    | v :: vs, hlength =>
      have hlength : vs.length = names.length := Nat.succ.inj hlength
      obtain ⟨-, h⟩ := assignAll_cons_ok.mp h
      match names, vs, hlength with
      | [], [], _ =>
        cases hname
        cases h
        exact ⟨v, rfl, Env.get?_set_self ..⟩
      | n' :: names, v' :: vs, hlength =>
        rw [List.getLast?_cons_cons] at hname ⊢
        exact ih h hlength hname

theorem length_of_evalAll_ok {es : List Expr} {vs : List (Value Float Bool)}
    {env env' : Env Float Bool} (h : evalAll angles env es = .ok (vs, env')) :
    vs.length = es.length := by
  induction es generalizing vs env with
  | nil =>
    obtain ⟨rfl, rfl⟩ := evalAll_nil_ok.mp h
    rfl
  | cons e es ih =>
    obtain ⟨v, env₁, vs, -, hvs, rfl⟩ := evalAll_cons_ok.mp h
    rw [List.length_cons, List.length_cons, ih hvs]

theorem assign_latest {state state' : SingleState} {name : String} {value : Expr}
    (h : execute angles state (.assign name value) = .ok state') : Latest name state' := by
  obtain ⟨v, env, -, -, rfl⟩ := execute_assign_ok.mp h
  exact ⟨v, rfl, Env.get?_set_self ..⟩

theorem assignEach_latest {state state' : SingleState} {names : List String} {values : List Expr}
    (hlength : values.length = names.length)
    (h : execute angles state (.assignEach names values) = .ok state') {name : String}
    (hname : names.getLast? = some name) : Latest name state' := by
  obtain ⟨vs, env, env', hvs, hassign, rfl⟩ := execute_assignEach_ok.mp h
  obtain ⟨v, hv, hget⟩ :=
    assignAll_latest hassign ((length_of_evalAll_ok hvs).trans hlength) hname
  exact ⟨v, by rw [hv, Option.some_or], hget⟩

/-- Returning the variable that was assigned last. -/
theorem return_simulates {state : SingleState} {frame : HostFrame}
    (hagrees : Agrees w angles state.env frame) {name : String} (hn : IsName name)
    (hlatest : Latest name state) :
    Simulates SameNumber state.result
      (runLines .asDoubles frame [.return (some (.name (w.variableText name)))]) := by
  obtain ⟨v, hlast, hget⟩ := hlatest
  rw [State.result, hlast, runLines, evalHost, hagrees.get_bound hn hget]
  cases v with
  | scalar x => exact .ok rfl
  | _ => exact .error (by simp) _

/-! ### The lines of statements -/

theorem assign_simulates {env : Env Float Bool} {frame : HostFrame}
    (hagrees : Agrees w angles env frame) {name : String} (hn : IsName name)
    (v : Value Float Bool) :
    Simulates (Agrees w angles) (assign env name v)
      (.ok (frame.set (w.variableText name) v.toHost)) := by
  rw [assign]
  split
  · exact .error (by simp) _
  · next hr => exact .ok (hagrees.set hn (fun hm => hr (List.contains_iff_mem.mpr hm)) v)

/-- Assigning several variables one after the other. -/
theorem assignAll_simulates {env : Env Float Bool} {frame : HostFrame}
    (hagrees : Agrees w angles env frame) {names : List String} (hn : ∀ name ∈ names, IsName name)
    (vs : List (Value Float Bool)) :
    Simulates (Agrees w angles) (assignAll env (names.zip vs))
      (.ok (((names.map w.variableText).zip (vs.map Value.toHost)).foldl
        (fun frame (name, v) => frame.set name v) frame)) := by
  induction names generalizing vs env frame with
  | nil => exact .ok hagrees
  | cons name names ih =>
    cases vs with
    | nil => exact .ok hagrees
    | cons v vs =>
      rw [List.zip_cons_cons, assignAll]
      refine (assign_simulates hagrees (hn name (List.mem_cons_self ..)) v).bind
        (s := .ok _) (g := fun frame => .ok (((names.map w.variableText).zip
          (vs.map Value.toHost)).foldl (fun frame (name, v) => frame.set name v) frame)) ?_
      intro env frame hagrees
      exact ih hagrees (fun n h => hn n (List.mem_cons_of_mem _ h)) vs

/-- The items of a tuple that is unpacked into as many names. -/
theorem unpack_simulates {env : Env Float Bool} {frame : HostFrame}
    (hagrees : Agrees w angles env frame) {names : List String} (hn : ∀ name ∈ names, IsName name)
    {vs : List (Value Float Bool)} (hlength : vs.length = names.length) :
    Simulates (Agrees w angles) (assignAll env (names.zip vs))
      (unpack frame (names.map w.variableText) (.tuple (vs.map Value.toHost))) := by
  have hunpack : unpack frame (names.map w.variableText) (.tuple (vs.map Value.toHost)) =
      .ok (((names.map w.variableText).zip (vs.map Value.toHost)).foldl
        (fun frame (name, v) => frame.set name v) frame) := by
    simp [unpack, hlength]
  rw [hunpack]
  exact assignAll_simulates hagrees hn vs

/-- A statement that is no block leaves a frame that agrees, as its line does. -/
def LineSimulates (w : HostWriter) (angles : Angles) (s : Stmt) : Prop :=
  ∀ state frame, Agrees w angles state.env frame →
    Simulates (fun (state : SingleState) frame => Agrees w angles state.env frame)
      (execute angles state s) (runLine .asDoubles frame (w.line s))

variable (hw : ¬Clashes w.functionName)
include hw

theorem assign_line_simulates {name : String} {value : Expr} (hn : (Stmt.assign name value).Named) :
    LineSimulates w angles (.assign name value) := by
  intro state frame hagrees
  rw [execute, line, runLine]
  refine (tree_simulates hw hn.2 state.env frame hagrees).bind_value ?_
  intro v env frame hagrees
  exact (assign_simulates hagrees hn.1 v).bind (g := fun frame => .ok frame)
    fun env frame hagrees => .ok hagrees

theorem unpack_line_simulates {names : List String} {value : Expr}
    (hn : (Stmt.unpack names value).Named) : LineSimulates w angles (.unpack names value) := by
  intro state frame hagrees
  rw [execute, line, runLine]
  refine (tree_simulates hw hn.2.2 state.env frame hagrees).bind_value ?_
  intro v env frame hagrees
  simp only
  cases ha : v.axes? with
  | none => exact .error (by simp) _
  | some axes =>
    -- with another number of names the program fails
    by_cases hlength : axes.length = names.length
    · have htuple : v.toHost = .tuple ((axes.map Value.scalar).map Value.toHost) := by
        cases v <;> cases ha <;> rfl
      simp only [if_pos hlength, htuple]
      rw [← bind_pure (unpack _ _ _)]
      exact (unpack_simulates hagrees hn.2.1 (by rw [List.length_map, hlength])).bind
        fun env frame hagrees => .ok hagrees
    · simp only [if_neg hlength]
      exact .error (by simp) _

theorem assignEach_line_simulates {names : List String} {values : List Expr}
    (hn : (Stmt.assignEach names values).Named) :
    LineSimulates w angles (.assignEach names values) := by
  obtain ⟨hne, hnames, hlength, hvalues⟩ := hn
  have hall : ∀ e ∈ values, TreeSimulates w angles e := fun e he =>
    tree_simulates hw (namedAll_iff.mp hvalues e he)
  intro state frame hagrees
  rw [execute]
  -- one name is assigned its value, several names are assigned from a tuple of the values
  match names, values with
  | [name], [value] =>
    rw [evalAll, line, runLine]
    simp only [evalAll, bind_assoc]
    refine (hall value (List.mem_cons_self ..) state.env frame hagrees).bind_value ?_
    intro v env frame hagrees
    exact (assignAll_simulates hagrees hnames [v]).bind (g := fun frame => .ok frame)
      fun env frame hagrees => .ok hagrees
  | name :: name' :: names, values =>
    rw [line, runLine, evalHost]
    · simp only [bind_assoc]
      refine (evalAll_simulates hall state.env frame hagrees).bind ?_
      rintro ⟨vs, env⟩ ⟨us, frame⟩ ⟨hvs, hus, hagrees⟩
      obtain rfl : us = vs.map Value.toHost := hus
      change vs.length = values.length at hvs
      simp only [pure_bind]
      rw [← bind_pure (unpack _ _ _)]
      exact (unpack_simulates hagrees hnames (hvs.trans hlength)).bind
        fun env frame hagrees => .ok hagrees
    · simp

theorem result_line_simulates {value : Expr} (hn : value.Named) :
    LineSimulates w angles (.result value) := by
  intro state frame hagrees
  have hvalue : TreeSimulates w angles value := tree_simulates hw hn
  have hline : runLine .asDoubles frame (w.line (.result value)) = (do
      let (_, frame) ← evalHost .asDoubles frame (w.tree value)
      return frame) := by
    cases value with
    -- the line of a step assigns what its tree would bind
    | step name op =>
      rw [line, runLine, tree, evalHost, bind_assoc]
      rfl
    | _ => rfl
  rw [execute, hline]
  refine (hvalue state.env frame hagrees).bind ?_
  rintro ⟨v, env⟩ ⟨u, frame⟩ ⟨-, hagrees⟩
  exact .ok hagrees

/-- A statement leaves a frame that agrees, as its line does. -/
theorem line_simulates {s : Stmt} (hn : s.Named) (hblock : ∀ ss, s ≠ .block ss) (hne : s ≠ .empty) :
    LineSimulates w angles s := by
  cases s with
  | assign name value => exact assign_line_simulates hw hn
  | unpack names value => exact unpack_line_simulates hw hn
  | assignEach names values => exact assignEach_line_simulates hw hn
  | block ss => exact absurd rfl (hblock ss)
  | result value => exact result_line_simulates hw hn
  | empty => exact absurd rfl hne
  | misplaced display => exact hn.elim

/-! ### The lines of a program -/

/-- The last lines return the value of the last statement. -/
theorem finalLines_simulates {s : Stmt} (hn : s.Named) (hblock : ∀ ss, s ≠ .block ss)
    (hne : s ≠ .empty) (state : SingleState) (frame : HostFrame)
    (hagrees : Agrees w angles state.env frame) :
    Simulates SameNumber (execute angles state s >>= State.result)
      (runLines .asDoubles frame (w.finalLines s)) := by
  cases s with
  | result value =>
    rw [execute, finalLines, runLines, bind_assoc]
    refine (tree_simulates hw hn state.env frame hagrees).bind_value ?_
    intro v env frame _
    cases v with
    | scalar x => exact .ok rfl
    | _ => exact .error (by simp) _
  | assign name value =>
    rw [finalLines, runLines_cons _ _ (line_ne_return hn hblock hne)]
    refine ((line_simulates hw hn hblock hne state frame hagrees).and
      fun _ => assign_latest).bind ?_
    rintro state frame ⟨hagrees, hlatest⟩
    exact return_simulates hagrees hn.1 hlatest
  | unpack names value =>
    rw [finalLines, runLines_cons _ _ (line_ne_return hn hblock hne)]
    refine ((line_simulates hw hn hblock hne state frame hagrees).and
      fun _ => execute_unpack_ok.mp).bind ?_
    rintro state frame ⟨-, v, env, axes, env', -, haxes, -, -, rfl⟩
    -- a row of coordinates is no number
    cases v <;> cases haxes <;> exact .error (by simp) _
  | assignEach names values =>
    obtain ⟨hnonempty, hnames, hlength, -⟩ := id hn
    obtain ⟨name, hname⟩ : ∃ name, names.getLast? = some name :=
      Option.ne_none_iff_exists'.mp (by simpa using hnonempty)
    rw [finalLines, hname, runLines_cons _ _ (line_ne_return hn hblock hne)]
    refine ((line_simulates hw hn hblock hne state frame hagrees).and
      fun _ h => assignEach_latest hlength h hname).bind ?_
    rintro state frame ⟨hagrees, hlatest⟩
    exact return_simulates hagrees (hnames name (List.mem_of_getLast? hname)) hlatest
  | block ss => exact absurd rfl (hblock ss)
  | empty => exact absurd rfl hne
  | misplaced display => exact hn.elim

/-- The lines of simple statements return the value of the last one. -/
theorem lines_simulate {ss : List Stmt} {last : Stmt}
    (hn : ∀ s ∈ ss ++ [last], s.Named ∧ (∀ ss, s ≠ .block ss) ∧ s ≠ .empty)
    (state : SingleState) (frame : HostFrame) (hagrees : Agrees w angles state.env frame) :
    Simulates SameNumber (executeAll angles state (ss ++ [last]) >>= State.result)
      (runLines .asDoubles frame (ss.map w.line ++ w.finalLines last)) := by
  induction ss generalizing state frame with
  | nil =>
    obtain ⟨hn, hblock, hne⟩ := hn last (by simp)
    rw [List.nil_append, executeAll_singleton]
    exact finalLines_simulates hw hn hblock hne state frame hagrees
  | cons s ss ih =>
    obtain ⟨hs, hblock, hne⟩ := hn s (by simp)
    rw [List.cons_append, List.map_cons, List.cons_append, executeAll_cons, bind_assoc,
      runLines_cons _ _ (line_ne_return hs hblock hne)]
    refine (line_simulates hw hs hblock hne state frame hagrees).bind ?_
    intro state frame hagrees
    exact ih (fun s h => hn s (by simp only [List.cons_append, List.mem_cons]; exact .inr h))
      state frame hagrees

end FieldLang.HostWriter
