/-
Functions of one program under two names.

* `SameName`, `SameFault`, `SameFrame` : what is the same up to the spelling of variables;
* `SameTree`, `sameTree_tree` : the trees of an expression, and what they do;
* `SameLine`, `sameLine_line`, `sameLines_final` : the lines of a statement, and what they do;
* `functions_alike` : the functions yield the same numbers and the same faults.

Design notes: the writer of generated code is asked twice for the same program. A variable is spelled
in two ways, but neither of them can be anything else to the host than the variable itself.
-/
import FieldLang.Proofs.Host.Function
import Mathlib.Data.List.Forall2

namespace FieldLang.HostWriter

/-! ### Names -/

/-- Two spellings of a variable. -/
def SameName (w w' : HostWriter) (n n' : String) : Prop :=
  ∃ name, IsName name ∧ n = w.variableText name ∧ n' = w'.variableText name

/-- The same fault, a variable in it being spelled in two ways. -/
inductive SameFault (w w' : HostWriter) : HostFault → HostFault → Prop where
  | refl (fault : HostFault) : SameFault w w' fault fault
  | unassigned {n n' : String} (h : SameName w w' n n') :
      SameFault w w' (.unassigned n) (.unassigned n')
  | undefined {n n' : String} (h : SameName w w' n n') :
      SameFault w w' (.undefined n) (.undefined n')

/-- The same variables with the same values, if any. -/
def SameBindings (w w' : HostWriter) : List (String × Option HostValue) →
    List (String × Option HostValue) → Prop :=
  List.Forall₂ fun p p' => SameName w w' p.1 p'.1 ∧ p.2 = p'.2

/-- Frames of both functions with the same variables. -/
structure SameFrame (w w' : HostWriter) (frame frame' : HostFrame) : Prop where
  first : frame.function = w.functionName
  second : frame'.function = w'.functionName
  locals : SameBindings w w' frame.locals frame'.locals

variable {w w' : HostWriter} {literals : Literals}

section Names

variable {n n' m m' : String} {frame frame' : HostFrame}
  {bindings bindings' : List (String × Option HostValue)}

theorem sameName_variableText {name : String} (h : IsName name) :
    SameName w w' (w.variableText name) (w'.variableText name) := ⟨name, h, rfl, rfl⟩

theorem SameName.eq_iff (h : SameName w w' n n') (h' : SameName w w' m m') : n = m ↔ n' = m' := by
  obtain ⟨name, hname, rfl, rfl⟩ := h
  obtain ⟨other, hother, rfl, rfl⟩ := h'
  have hname := isIdentifier_of_isName hname
  have hother := isIdentifier_of_isName hother
  constructor <;> intro heq <;> rw [variableText_injective hname hother heq]

/-- A variable has the same value under both spellings. -/
theorem SameBindings.lookup_eq (hbindings : SameBindings w w' bindings bindings')
    (h : SameName w w' n n') : bindings.lookup n = bindings'.lookup n' := by
  induction hbindings with
  | nil => rfl
  | @cons p p' rest rest' hp _ ih =>
    have hname : (n == p.1) = (n' == p'.1) := by
      rw [Bool.eq_iff_iff, beq_iff_eq, beq_iff_eq]
      exact h.eq_iff hp.1
    rw [List.lookup_cons, List.lookup_cons, hname, hp.2, ih]

/-- Nothing is bound in place of what the host needs. -/
theorem SameBindings.lookup_global (hbindings : SameBindings w w' bindings bindings') {g : String}
    (hg : g ∈ Host.globalNames) : bindings.lookup g = none ∧ bindings'.lookup g = none := by
  induction hbindings with
  | nil => exact ⟨rfl, rfl⟩
  | @cons p p' rest rest' hp _ ih =>
    obtain ⟨name, -, hn, hn'⟩ := hp.1
    have hne : (g == p.1) = false :=
      beq_eq_false_iff_ne.mpr fun heq => variableText_not_mem name (hn ▸ heq ▸ hg)
    have hne' : (g == p'.1) = false :=
      beq_eq_false_iff_ne.mpr fun heq => variableText_not_mem name (hn' ▸ heq ▸ hg)
    rw [List.lookup_cons, List.lookup_cons, hne, hne']
    exact ih

theorem SameFrame.set (hframe : SameFrame w w' frame frame') (h : SameName w w' n n') (v : HostValue) :
    SameFrame w w' (frame.set n v) (frame'.set n' v) where
  first := hframe.first
  second := hframe.second
  locals := by
    refine .cons ⟨h, rfl⟩ (List.rel_filter (fun p p' hp => ?_) hframe.locals)
    simp only [bne_iff_ne, ne_eq]
    exact not_congr (hp.1.eq_iff h)

/-- A variable that the function does not bind is the function, or it is unknown. -/
theorem get_of_lookup_none {name : String}
    (hlookup : frame.locals.lookup (w.variableText name) = none) :
    frame.get literals (w.variableText name) =
      if w.variableText name = frame.function then .ok .function
      else .error (.undefined (w.variableText name)) := by
  have hglobal : ∀ g ∈ ["inf", "nan"], w.variableText name ≠ g := fun g hg heq =>
    variableText_not_mem name (heq ▸ List.mem_append_right _ hg)
  rw [HostFrame.get, hlookup]
  simp only
  rw [if_neg (hglobal "inf" (by decide)), if_neg (hglobal "nan" (by decide))]

/-- Reading a variable. -/
theorem SameFrame.get_alike (hw : ¬Clashes w.functionName) (hw' : ¬Clashes w'.functionName)
    (hframe : SameFrame w w' frame frame') (h : SameName w w' n n') :
    Alike (SameFault w w') (· = ·) (frame.get literals n) (frame'.get literals n') := by
  have hlookup := hframe.locals.lookup_eq h
  obtain ⟨name, hname, rfl, rfl⟩ := id h
  cases hl : frame'.locals.lookup (w'.variableText name) with
  | none =>
    rw [get_of_lookup_none (hlookup.trans hl), get_of_lookup_none hl,
      if_neg (hframe.first ▸ variableText_ne_function hw hname),
      if_neg (hframe.second ▸ variableText_ne_function hw' hname)]
    exact .error (.undefined h)
  | some v =>
    rw [HostFrame.get, HostFrame.get, hlookup, hl]
    cases v with
    | none => exact .error (.unassigned h)
    | some v => exact .ok rfl

/-- The infinity and the number that is none are the host's. -/
theorem SameFrame.get_global (hframe : SameFrame w w' frame frame') {g : String}
    (hg : g ∈ ["inf", "nan"]) : ∃ v, frame.get literals g = .ok v ∧ frame'.get literals g = .ok v := by
  obtain ⟨hfirst, hsecond⟩ := hframe.locals.lookup_global (List.mem_append_right _ hg)
  rw [HostFrame.get, HostFrame.get, hfirst, hsecond]
  simp only
  rcases List.mem_cons.mp hg with rfl | hg
  · exact ⟨_, rfl, rfl⟩
  · cases List.mem_singleton.mp hg
    exact ⟨_, rfl, rfl⟩

end Names

/-! ### Trees -/

/-- The same result, and frames with the same variables. -/
def SameResult {α : Type} (w w' : HostWriter) (r r' : α × HostFrame) : Prop :=
  r.1 = r'.1 ∧ SameFrame w w' r.2 r'.2

/-- Trees that yield the same value, and that bind the same variables. -/
structure SameTree (w w' : HostWriter) (literals : Literals) (x y : HostExpr) : Prop where
  runs : ∀ frame frame', SameFrame w w' frame frame' →
    Alike (SameFault w w') (SameResult w w') (evalHost literals frame x) (evalHost literals frame' y)
  bound : List.Forall₂ (SameName w w') x.bound y.bound

/-- What follows a result goes on with it. -/
theorem alike_bind_result {α β γ : Type} {R : β → γ → Prop} {r r' : Except HostFault (α × HostFrame)}
    {f : α × HostFrame → Except HostFault β} {g : α × HostFrame → Except HostFault γ}
    (h : Alike (SameFault w w') (SameResult w w') r r')
    (hf : ∀ a frame frame', SameFrame w w' frame frame' →
      Alike (SameFault w w') R (f (a, frame)) (g (a, frame'))) :
    Alike (SameFault w w') R (r >>= f) (r' >>= g) := by
  refine h.bind ?_
  rintro ⟨a, frame⟩ ⟨b, frame'⟩ ⟨rfl, hframe⟩
  exact hf a frame frame' hframe

/-- What is computed from values does not depend on the frame. -/
theorem alike_pure {α : Type} {frame frame' : HostFrame} (hframe : SameFrame w w' frame frame')
    (r : Except HostFault α) :
    Alike (SameFault w w') (SameResult w w') (do return (← r, frame)) (do return (← r, frame')) :=
  (alike_self .refl r).bind fun _ _ heq => .ok ⟨heq, hframe⟩

theorem alike_ite {α β : Type} {R : α → β → Prop} {c : Prop} [Decidable c] {r s : Except HostFault α}
    {r' s' : Except HostFault β} (h : Alike (SameFault w w') R r r')
    (h' : Alike (SameFault w w') R s s') :
    Alike (SameFault w w') R (if c then r else s) (if c then r' else s') := by
  split
  · exact h
  · exact h'

section Trees

variable {x x' y y' z z' : HostExpr} {xs ys : List HostExpr}

theorem sameTree_whole (n : Nat) : SameTree w w' literals (.whole n) (.whole n) where
  runs _ _ hframe := .ok ⟨rfl, hframe⟩
  bound := .nil

theorem sameTree_real (value : Float) : SameTree w w' literals (.real value) (.real value) where
  runs _ _ hframe := .ok ⟨rfl, hframe⟩
  bound := .nil

theorem sameTree_name (hw : ¬Clashes w.functionName) (hw' : ¬Clashes w'.functionName) {n n' : String}
    (h : SameName w w' n n') : SameTree w w' literals (.name n) (.name n') where
  runs _ _ hframe := (hframe.get_alike hw hw' h).bind fun _ _ heq => .ok ⟨heq, hframe⟩
  bound := .nil

theorem sameTree_global {g : String} (hg : g ∈ ["inf", "nan"]) :
    SameTree w w' literals (.name g) (.name g) where
  runs frame frame' hframe := by
    obtain ⟨v, hv, hv'⟩ : ∃ v, frame.get literals g = .ok v ∧ frame'.get literals g = .ok v :=
      hframe.get_global hg
    rw [evalHost, evalHost, hv, hv']
    exact .ok ⟨rfl, hframe⟩
  bound := .nil

theorem SameTree.negate (h : SameTree w w' literals x x') :
    SameTree w w' literals (.negate x) (.negate x') where
  runs frame frame' hframe := by
    rw [evalHost, evalHost]
    exact alike_bind_result (h.runs _ _ hframe) fun v _ _ hframe => alike_pure hframe v.neg
  bound := h.bound

theorem SameTree.binary (op : BinOp) (h : SameTree w w' literals x x')
    (h' : SameTree w w' literals y y') :
    SameTree w w' literals (.binary op x y) (.binary op x' y') where
  runs frame frame' hframe := by
    have hfirst := h.runs _ _ hframe
    cases op with
    | or =>
      rw [evalHost, evalHost]
      refine alike_bind_result hfirst fun v _ _ hframe => alike_ite ?_ (h'.runs _ _ hframe)
      exact .ok ⟨rfl, hframe⟩
    | and =>
      rw [evalHost, evalHost]
      refine alike_bind_result hfirst fun v _ _ hframe => alike_ite (h'.runs _ _ hframe) ?_
      exact .ok ⟨rfl, hframe⟩
    | _ =>
      rw [evalHost, evalHost]
      · exact alike_bind_result hfirst fun v _ _ hframe =>
          alike_bind_result (h'.runs _ _ hframe) fun u _ _ hframe => alike_pure hframe _
      all_goals simp
  bound := List.rel_append h.bound h'.bound

theorem evalHostAll_alike (h : List.Forall₂ (SameTree w w' literals) xs ys) {frame frame' : HostFrame}
    (hframe : SameFrame w w' frame frame') :
    Alike (SameFault w w') (SameResult w w') (evalHostAll literals frame xs)
      (evalHostAll literals frame' ys) := by
  induction h generalizing frame frame' with
  | nil => exact .ok ⟨rfl, hframe⟩
  | cons h _ ih =>
    rw [evalHostAll, evalHostAll]
    refine alike_bind_result (h.runs _ _ hframe) fun v _ _ hframe => ?_
    exact alike_bind_result (ih hframe) fun vs _ _ hframe => .ok ⟨rfl, hframe⟩

theorem boundByAll_same (h : List.Forall₂ (SameTree w w' literals) xs ys) :
    List.Forall₂ (SameName w w') (boundByAll xs) (boundByAll ys) := by
  induction h with
  | nil => exact .nil
  | cons h _ ih => exact List.rel_append h.bound ih

/-- Rows of comparisons stop at the same place. -/
theorem evalRow_alike (h : List.Forall₂ (SameTree w w' literals) xs ys) {frame frame' : HostFrame}
    (hframe : SameFrame w w' frame frame') (previous : Option HostValue) (result : HostValue)
    (ops : List BinOp) :
    Alike (SameFault w w') (SameResult w w') (evalRow literals frame previous result ops xs)
      (evalRow literals frame' previous result ops ys) := by
  induction h generalizing frame frame' previous result ops with
  | nil => exact .ok ⟨rfl, hframe⟩
  | cons h _ ih =>
    rw [evalRow, evalRow]
    refine alike_bind_result (h.runs _ _ hframe) fun v _ _ hframe => ?_
    cases previous with
    | none => exact ih hframe _ _ _
    | some p =>
      cases ops with
      | nil => exact .ok ⟨rfl, hframe⟩
      | cons op ops =>
        refine (alike_self .refl (p.compare op v)).bind ?_
        rintro r _ rfl
        exact alike_ite (ih hframe _ _ _) (.ok ⟨rfl, hframe⟩)

theorem sameTree_compare (ops : List BinOp) (h : List.Forall₂ (SameTree w w' literals) xs ys) :
    SameTree w w' literals (.compare xs ops) (.compare ys ops) where
  runs frame frame' hframe := by
    rw [evalHost, evalHost]
    exact evalRow_alike h hframe _ _ _
  bound := boundByAll_same h

theorem SameTree.conditional (ht : SameTree w w' literals x x') (hc : SameTree w w' literals y y')
    (hf : SameTree w w' literals z z') :
    SameTree w w' literals (.conditional x y z) (.conditional x' y' z') where
  runs frame frame' hframe := by
    rw [evalHost, evalHost]
    exact alike_bind_result (hc.runs _ _ hframe) fun v _ _ hframe =>
      alike_ite (ht.runs _ _ hframe) (hf.runs _ _ hframe)
  bound := List.rel_append (List.rel_append ht.bound hc.bound) hf.bound

theorem sameTree_call (f : Builtin) (h : List.Forall₂ (SameTree w w' literals) xs ys) :
    SameTree w w' literals (.call f.name xs) (.call f.name ys) where
  runs frame frame' hframe := by
    have hglobal := hframe.locals.lookup_global (Host.name_mem_globalNames f)
    rw [evalHost, evalHost, HostFrame.callee_name hglobal.1, HostFrame.callee_name hglobal.2]
    refine alike_bind_result (evalHostAll_alike h hframe) fun vs _ _ hframe => ?_
    exact (alike_self .refl (spreadArguments f vs)).bind fun us _ heq => heq ▸ alike_pure hframe _
  bound := boundByAll_same h

theorem sameTree_list (h : List.Forall₂ (SameTree w w' literals) xs ys) :
    SameTree w w' literals (.list xs) (.list ys) where
  runs frame frame' hframe := by
    rw [evalHost, evalHost]
    exact alike_bind_result (evalHostAll_alike h hframe) fun vs _ _ hframe => .ok ⟨rfl, hframe⟩
  bound := boundByAll_same h

theorem sameTree_tuple (h : List.Forall₂ (SameTree w w' literals) xs ys) :
    SameTree w w' literals (.tuple xs) (.tuple ys) where
  runs frame frame' hframe := by
    rw [evalHost, evalHost]
    exact alike_bind_result (evalHostAll_alike h hframe) fun vs _ _ hframe => .ok ⟨rfl, hframe⟩
  bound := boundByAll_same h

theorem SameTree.bind {n n' : String} (hn : SameName w w' n n') (h : SameTree w w' literals x x') :
    SameTree w w' literals (.bind n x) (.bind n' x') where
  runs frame frame' hframe := by
    rw [evalHost, evalHost]
    exact alike_bind_result (h.runs _ _ hframe) fun v _ _ hframe => .ok ⟨rfl, hframe.set hn v⟩
  bound := .cons hn h.bound

end Trees

/-! ### Expressions -/

theorem sameTree_number (value : Float) :
    SameTree w w' literals (numberTree value) (numberTree value) := by
  have hmagnitude : ∀ mag, SameTree w w' literals (magnitudeTree mag) (magnitudeTree mag) := by
    intro mag
    rw [magnitudeTree]
    split
    · exact sameTree_whole _
    · exact sameTree_real _
  rw [numberTree]
  split
  · exact sameTree_global (by decide)
  · exact sameTree_global (by decide)
  · exact (sameTree_global (by decide)).negate
  · exact hmagnitude _
  · exact (hmagnitude _).negate

section Expressions

variable (hw : ¬Clashes w.functionName) (hw' : ¬Clashes w'.functionName)
include hw hw'

theorem sameName_given {name : String} (h : name ∈ givenNames) : SameName w w' name name :=
  ⟨name, isName_given h, (variableText_given hw h).symm, (variableText_given hw' h).symm⟩

theorem sameTrees_extra (f : Builtin) :
    List.Forall₂ (SameTree w w' literals) (extraTrees f) (extraTrees f) := by
  have hangle : ∀ name ∈ givenNames, SameTree w w' literals (.name name) (.name name) :=
    fun _ h => sameTree_name hw hw' (sameName_given hw hw' h)
  cases f with
  | rot0 => exact .cons (hangle "a0" (by decide)) .nil
  | rot1 => exact .cons (hangle "a1" (by decide)) .nil
  | _ => exact .nil

theorem sameTree_stepped {name : String} (hn : IsName name) (op : StepOp) :
    SameTree w w' literals (w.stepped name op) (w'.stepped name op) :=
  (sameTree_name hw hw' (sameName_variableText hn)).binary _ (sameTree_whole 1)

/-- The trees of an expression under both names. -/
theorem sameTree_tree {e : Expr} (hn : e.Named) : SameTree w w' literals (w.tree e) (w'.tree e) := by
  induction e using Expr.induction with
  | number value => exact sameTree_number value
  | name name => exact sameTree_name hw hw' (sameName_variableText hn)
  | negate operand ih => exact (ih hn).negate
  | binary op lhs rhs ihl ihr =>
    rw [tree, tree]
    split
    · exact sameTree_compare _ (.cons (ihl hn.1) (.cons (ihr hn.2) .nil))
    · exact (ihl hn.1).binary op (ihr hn.2)
  | conditional condition ifTrue ifFalse ihc iht ihf =>
    exact (iht hn.2.1).conditional (ihc hn.1) (ihf hn.2.2)
  | call f args ih =>
    have hargs : List.Forall₂ (SameTree w w' literals) (w.trees args) (w'.trees args) := by
      rw [trees_eq_map, trees_eq_map, List.forall₂_map_left_iff, List.forall₂_map_right_iff,
        List.forall₂_same]
      exact fun e he => ih e he (namedAll_iff.mp hn e he)
    rw [tree, tree]
    exact sameTree_call f
      (List.rel_append (forall₂_gathered f (sameTree_list hargs) hargs) (sameTrees_extra hw hw' f))
  | step name op => exact (sameTree_stepped hw hw' hn op).bind (sameName_variableText hn)
  | misplaced display => exact hn.elim

end Expressions

/-! ### Lines -/

/-- Lines that do the same. -/
inductive SameLine (w w' : HostWriter) (literals : Literals) : HostStmt → HostStmt → Prop where
  | assign {n n' : String} {x y : HostExpr} (hn : SameName w w' n n') (h : SameTree w w' literals x y) :
    SameLine w w' literals (.assign (.name n) x) (.assign (.name n') y)
  | unpack {ns ns' : List String} {x y : HostExpr} (hns : List.Forall₂ (SameName w w') ns ns')
    (h : SameTree w w' literals x y) :
    SameLine w w' literals (.assign (.names ns) x) (.assign (.names ns') y)
  | expr {x y : HostExpr} (h : SameTree w w' literals x y) : SameLine w w' literals (.expr x) (.expr y)
  | value {x y : HostExpr} (h : SameTree w w' literals x y) :
    SameLine w w' literals (.return (some x)) (.return (some y))
  | nothing : SameLine w w' literals (.return none) (.return none)

section Lines

variable {ls ls' : List HostStmt} {ns ns' : List String} {frame frame' : HostFrame}

theorem SameLine.bound {l l' : HostStmt} (h : SameLine w w' literals l l') :
    List.Forall₂ (SameName w w') l.bound l'.bound := by
  cases h with
  | assign hn h => exact .cons hn h.bound
  | unpack hns h => exact List.rel_append hns h.bound
  | expr h => exact h.bound
  | value h => exact h.bound
  | nothing => exact .nil

theorem boundByLines_same (h : List.Forall₂ (SameLine w w' literals) ls ls') :
    List.Forall₂ (SameName w w') (ls.flatMap HostStmt.bound) (ls'.flatMap HostStmt.bound) := by
  induction h with
  | nil => exact .nil
  | cons h _ ih => exact List.rel_append h.bound ih

/-- Binding several variables one after the other. -/
theorem sameFrame_setAll (hns : List.Forall₂ (SameName w w') ns ns') (vs : List HostValue)
    (hframe : SameFrame w w' frame frame') :
    SameFrame w w' ((ns.zip vs).foldl (fun frame (name, v) => frame.set name v) frame)
      ((ns'.zip vs).foldl (fun frame (name, v) => frame.set name v) frame') := by
  induction hns generalizing vs frame frame' with
  | nil => exact hframe
  | cons hn _ ih =>
    cases vs with
    | nil => exact hframe
    | cons v vs => exact ih vs (hframe.set hn v)

theorem unpack_alike (hns : List.Forall₂ (SameName w w') ns ns') (v : HostValue)
    (hframe : SameFrame w w' frame frame') :
    Alike (SameFault w w') (SameFrame w w') (unpack frame ns v) (unpack frame' ns' v) := by
  have hrow : ∀ items : List HostValue,
      Alike (SameFault w w') (SameFrame w w') (unpack frame ns (.tuple items))
        (unpack frame' ns' (.tuple items)) := by
    intro items
    rw [unpack, unpack, hns.length_eq]
    refine alike_ite (.error (.refl _)) (alike_ite (.error (.refl _)) (.ok ?_))
    exact sameFrame_setAll hns items hframe
  cases v with
  | tuple items => exact hrow items
  | list items => exact hrow items
  | _ => exact .error (.refl _)

/-- Lines return the same. -/
theorem runLines_alike (h : List.Forall₂ (SameLine w w' literals) ls ls')
    (hframe : SameFrame w w' frame frame') :
    Alike (SameFault w w') (· = ·) (runLines literals frame ls) (runLines literals frame' ls') := by
  induction h generalizing frame frame' with
  | nil => exact .ok rfl
  | cons hline _ ih =>
    cases hline with
    | assign hn h =>
      rw [runLines, runLines]
      exact alike_bind_result (h.runs _ _ hframe) fun v _ _ hframe => ih (hframe.set hn v)
    | unpack hns h =>
      rw [runLines, runLines]
      exact alike_bind_result (h.runs _ _ hframe) fun v _ _ hframe =>
        (unpack_alike hns v hframe).bind fun _ _ hframe => ih hframe
    | expr h =>
      rw [runLines, runLines]
      exact alike_bind_result (h.runs _ _ hframe) fun v _ _ hframe => ih hframe
    | value h =>
      rw [runLines, runLines]
      exact alike_bind_result (h.runs _ _ hframe) fun v _ _ hframe => .ok rfl
    | nothing => exact .ok rfl

theorem sameNames_map {names : List String} (hn : ∀ name ∈ names, IsName name) :
    List.Forall₂ (SameName w w') (names.map w.variableText) (names.map w'.variableText) := by
  rw [List.forall₂_map_left_iff, List.forall₂_map_right_iff, List.forall₂_same]
  exact fun name hname => sameName_variableText (hn name hname)

variable (hw : ¬Clashes w.functionName) (hw' : ¬Clashes w'.functionName)
include hw hw'

theorem sameLine_line {s : Stmt} (hn : s.Named) : SameLine w w' literals (w.line s) (w'.line s) := by
  match s with
  | .result value =>
    rcases step_or_ne value with ⟨name, op, rfl⟩ | hother
    · exact .assign (sameName_variableText hn) (sameTree_stepped hw hw' hn op)
    · rw [line_result w hother, line_result w' hother]
      exact .expr (sameTree_tree hw hw' hn)
  | .assign name value => exact .assign (sameName_variableText hn.1) (sameTree_tree hw hw' hn.2)
  | .unpack names value => exact .unpack (sameNames_map hn.2.1) (sameTree_tree hw hw' hn.2.2)
  | .assignEach names values =>
    obtain ⟨hne, hnames, hlength, hvalues⟩ := hn
    match names, values with
    | [name], [value] =>
      exact .assign (sameName_variableText (hnames name List.mem_cons_self))
        (sameTree_tree hw hw' hvalues.1)
    | name :: name' :: names, values =>
      rw [line, line]
      · refine .unpack (sameNames_map hnames) (sameTree_tuple ?_)
        rw [List.forall₂_map_left_iff, List.forall₂_map_right_iff, List.forall₂_same]
        exact fun e he => sameTree_tree hw hw' (namedAll_iff.mp hvalues e he)
      all_goals simp
  | .block _ | .empty | .misplaced _ => exact .nothing

theorem sameLines_final {s : Stmt} (hn : s.Named) :
    List.Forall₂ (SameLine w w' literals) (w.finalLines s) (w'.finalLines s) := by
  have hreturn {name : String} (h : IsName name) :
      SameTree w w' literals (.name (w.variableText name)) (.name (w'.variableText name)) :=
    sameTree_name hw hw' (sameName_variableText h)
  match s with
  | .result value => exact .cons (.value (sameTree_tree hw hw' hn)) .nil
  | .assign name value =>
    exact .cons (sameLine_line hw hw' hn) (.cons (.value (hreturn hn.1)) .nil)
  | .unpack names value =>
    refine .cons (sameLine_line hw hw' hn) (.cons (.value (sameTree_tuple ?_)) .nil)
    rw [List.forall₂_map_left_iff, List.forall₂_map_right_iff, List.forall₂_same]
    exact fun name hname => hreturn (hn.2.1 name hname)
  | .assignEach names values =>
    refine .cons (sameLine_line hw hw' hn) (.cons ?_ .nil)
    cases hname : names.getLast? with
    | none => exact .nothing
    | some name => exact .value (hreturn (hn.2.1 name (List.mem_of_getLast? hname)))
  | .block _ | .empty | .misplaced _ => exact .nil

/-- The functions of a program yield the same. -/
theorem functions_alike (h₀ : w.a0 = w'.a0) (h₁ : w.a1 = w'.a1) {ss : List Stmt} {last : Stmt}
    (hn : ∀ s ∈ ss ++ [last], s.Named) (x y z : Float) :
    Alike (SameFault w w') (· = ·) ((w.function ss last).call literals x y z)
      ((w'.function ss last).call literals x y z) := by
  have hgiven {name : String} (h : name ∈ givenNames) := sameName_given hw hw' h
  have hparameters : List.Forall₂ (SameName w w') ["x", "y", "z"] ["x", "y", "z"] :=
    .cons (hgiven (by decide)) (.cons (hgiven (by decide)) (.cons (hgiven (by decide)) .nil))
  -- both bodies are the same up to the names, so the frames stay so line by line
  have hbody : List.Forall₂ (SameLine w w' literals) (w.function ss last).body
      (w'.function ss last).body := by
    rw [function, function, h₀, h₁]
    refine .cons (.assign (hgiven (by decide)) (sameTree_number _))
      (.cons (.assign (hgiven (by decide)) (sameTree_number _)) (List.rel_append ?_ ?_))
    · rw [List.forall₂_map_left_iff, List.forall₂_map_right_iff, List.forall₂_same]
      exact fun s hs => sameLine_line hw hw' (hn s (List.mem_append_left _ hs))
    · exact sameLines_final hw hw' (hn last (by simp))
  have hlocals : List.Forall₂ (SameName w w') (w.function ss last).locals
      (w'.function ss last).locals := List.rel_append hparameters (boundByLines_same hbody)
  have hstart : SameFrame w w'
      ⟨w.functionName, (w.function ss last).locals.map fun name => (name, none)⟩
      ⟨w'.functionName, (w'.function ss last).locals.map fun name => (name, none)⟩ := by
    refine ⟨rfl, rfl, ?_⟩
    rw [SameBindings, List.forall₂_map_left_iff, List.forall₂_map_right_iff]
    exact hlocals.imp fun _ _ h => ⟨h, rfl⟩
  rw [HostFunction.call, HostFunction.call]
  refine (runLines_alike hbody (sameFrame_setAll hparameters _ hstart)).bind ?_
  rintro v _ rfl
  exact alike_self .refl _

end Lines

end FieldLang.HostWriter
