/-
Brackets of generated functions.

* `Nests` : tokens between which a number of brackets are open at once and that close all of them;
* `brackets`, `lineBrackets`, `functionBrackets` : that number for an expression, a statement and a
  function;
* `nests_spelled`, `nests_lineTokens`, `nests_functionTokens` : what is written nests as many brackets;
* `nesting_of_tokens` : so does the text.

Design notes: brackets are counted from the tree, so neither the width of a text nor the name of its
function changes their number.
-/
import FieldLang.Proofs.Host.Bodies

namespace FieldLang.HostWriter

open Host Writing

/-! ### Tokens -/

/-- At most `n` brackets are open between the tokens besides those that are open before them, and
exactly these are open behind them. -/
structure Nests (n : Nat) (ts : List HostToken) : Prop where
  closed : ∀ d, ts.foldl depthAfter d = d
  deepest : ∀ d, Host.deepest d ts = d + n

section Tokens

variable {m n : Nat} {t : HostToken} {ts us : List HostToken}

theorem le_deepest (d : Nat) (ts : List HostToken) : d ≤ Host.deepest d ts := by
  cases ts with
  | nil => exact Nat.le_refl d
  | cons t ts => exact Nat.le_max_left ..

theorem deepest_append (d : Nat) (ts us : List HostToken) :
    Host.deepest d (ts ++ us) =
      max (Host.deepest d ts) (Host.deepest (ts.foldl depthAfter d) us) := by
  induction ts generalizing d with
  | nil => exact (Nat.max_eq_right (le_deepest d us)).symm
  | cons t ts ih => rw [List.cons_append, Host.deepest, ih, ← Nat.max_assoc, List.foldl_cons, Host.deepest]

theorem nests_nil : Nests 0 [] := ⟨fun _ => rfl, fun _ => rfl⟩

theorem Nests.append (h : Nests m ts) (h' : Nests n us) : Nests (max m n) (ts ++ us) where
  closed d := by rw [List.foldl_append, h.closed, h'.closed]
  deepest d := by rw [deepest_append, h.closed, h.deepest, h'.deepest, Nat.add_max_add_left]

/-- A token that is no bracket. -/
theorem Nests.cons (ht : ∀ d, depthAfter d t = d) (h : Nests n ts) : Nests n (t :: ts) where
  closed d := by rw [List.foldl_cons, ht, h.closed]
  deepest d := by rw [Host.deepest, ht, h.deepest, Nat.max_eq_right (Nat.le_add_right d n)]

theorem nests_single (ht : ∀ d, depthAfter d t = d) : Nests 0 [t] := nests_nil.cons ht

/-- Tokens between a bracket that opens and one that closes. -/
theorem Nests.enclosed {opening closing : HostToken} (ho : ∀ d, depthAfter d opening = d + 1)
    (hc : ∀ d, depthAfter (d + 1) closing = d) (h : Nests n ts) :
    Nests (n + 1) (opening :: (ts ++ [closing])) where
  closed d := by rw [List.foldl_cons, List.foldl_append, ho, h.closed, List.foldl_cons, hc, List.foldl_nil]
  deepest d := by
    rw [Host.deepest, deepest_append, ho, h.closed, h.deepest, Host.deepest, hc, Host.deepest]
    omega

theorem Nests.bracketed (h : Nests n ts) : Nests (n + 1) (bracketed ts) :=
  h.enclosed (fun _ => rfl) fun _ => rfl

theorem Nests.listed {rows : List (List HostToken)} (h : Nests n (commaSeparated rows)) :
    Nests (n + 1) (listed rows) :=
  h.enclosed (fun _ => rfl) fun _ => rfl

theorem Nests.bracketedIf (h : Nests n ts) (asked : Bool) :
    Nests (n + asked.toNat) (bracketedIf asked ts) := by
  cases asked with
  | false => exact h
  | true => exact h.bracketed

theorem nests_rows {α : Type} {f : α → Nat} {g : α → List HostToken} {xs : List α}
    (h : ∀ x ∈ xs, Nests (f x) (g x)) : List.Forall₂ Nests (xs.map f) (xs.map g) := by
  rwa [List.forall₂_map_left_iff, List.forall₂_map_right_iff, List.forall₂_same]

/-- Rows, each with something in front of it. -/
theorem nests_flatMap {ns : List Nat} {rows : List (List HostToken)} (ht : ∀ d, depthAfter d t = d)
    (h : List.Forall₂ Nests ns rows) : Nests (ns.foldr max 0) (rows.flatMap (t :: ·)) := by
  induction h with
  | nil => exact nests_nil
  | cons hfirst _ ih => exact (hfirst.cons ht).append ih

theorem nests_commaSeparated {ns : List Nat} {rows : List (List HostToken)}
    (h : List.Forall₂ Nests ns rows) : Nests (ns.foldr max 0) (commaSeparated rows) := by
  cases h with
  | nil => exact nests_nil
  | cons hfirst hmore => exact hfirst.append (nests_flatMap (fun _ => rfl) hmore)

end Tokens

/-! ### Expressions -/

/-- How many brackets a call opens around its arguments: a row of them has its own. -/
def callBrackets : Builtin → Nat
  | .union | .intersect | .roundMin | .roundMax => 2
  | _ => 1

mutual

/-- How many brackets of an expression are open at once. -/
def brackets : Expr → Nat
  | .number _ | .variable _ | .misplaced _ => 0
  | .negate operand => brackets operand + (decide (rank operand < signRank)).toNat
  | .binary op lhs rhs =>
    max (brackets lhs + (decide (rank lhs < leftRank op)).toNat)
      (brackets rhs + (decide (rank rhs < rightRank op)).toNat)
  | .conditional condition ifTrue ifFalse =>
    max (brackets ifTrue + (decide (rank ifTrue < conditionalRank + 1)).toNat)
      (max (brackets condition + (decide (rank condition < conditionalRank + 1)).toNat)
        (brackets ifFalse + (decide (rank ifFalse < conditionalRank)).toNat))
  | .call f args => bracketsAll args + callBrackets f
  | .step _ _ => 1

/-- How many brackets of expressions are open at once. -/
def bracketsAll : List Expr → Nat
  | [] => 0
  | e :: es => max (brackets e) (bracketsAll es)

end

theorem bracketsAll_eq (es : List Expr) : bracketsAll es = (es.map brackets).foldr max 0 := by
  induction es with
  | nil => rfl
  | cons e es ih => rw [bracketsAll, ih, List.map_cons, List.foldr_cons]

section Expressions

variable {w : HostWriter}

theorem nests_numberTokens (value : Float) : Nests 0 (numberTokens value) := by
  have hmag : ∀ mag d, depthAfter d (magnitudeToken mag) = d := by
    intro mag d
    rw [magnitudeToken]
    split <;> rfl
  have hminus : ∀ d, depthAfter d (.mark "-") = d := fun _ => rfl
  rw [numberTokens]
  split
  · exact nests_single fun _ => rfl
  · exact nests_single fun _ => rfl
  · exact (nests_single fun _ => rfl).cons hminus
  · exact nests_single (hmag _)
  · exact (nests_single (hmag _)).cons hminus

theorem depthAfter_operatorToken (op : BinOp) (d : Nat) : depthAfter d (operatorToken op) = d := by
  cases op <;> rfl

theorem nests_steppedTokens (name : String) (op : StepOp) : Nests 0 (w.steppedTokens name op) := by
  refine .cons (fun _ => rfl) (.cons (fun _ => ?_) (nests_single fun _ => rfl))
  cases op <;> rfl

theorem nests_extraTokens (f : Builtin) :
    ∃ ns, List.Forall₂ Nests ns (extraTokens f) ∧ ns.foldr max 0 = 0 := by
  have hname : ∀ name : String, Nests 0 [.name name] := fun _ => nests_single fun _ => rfl
  cases f with
  | rot0 => exact ⟨[0], .cons (hname "a0") .nil, rfl⟩
  | rot1 => exact ⟨[0], .cons (hname "a1") .nil, rfl⟩
  | _ => exact ⟨[], .nil, rfl⟩

/-- The arguments of a call, in its brackets. -/
theorem nests_call (f : Builtin) {ns : List Nat} {rows : List (List HostToken)}
    (h : List.Forall₂ Nests ns rows) :
    Nests (ns.foldr max 0 + callBrackets f)
      (bracketed (commaSeparated (gathered f listed rows ++ extraTokens f))) := by
  obtain ⟨extra, hextra, hzero⟩ := nests_extraTokens f
  have hfold : ∀ ms : List Nat, (ms ++ extra).foldr max 0 = ms.foldr max 0 := by
    intro ms
    rw [List.foldr_append, hzero]
  -- the arguments are gathered in one list, or they are not
  have hrow : callBrackets f = 2 ∧ gathered f listed rows = [listed rows] ∨
      callBrackets f = 1 ∧ gathered f listed rows = rows := by
    cases f <;> simp [callBrackets, gathered]
  rcases hrow with ⟨hcall, hrow⟩ | ⟨hcall, hrow⟩ <;> rw [hcall, hrow]
  · have hlist := List.rel_append (.cons (nests_commaSeparated h).listed .nil) hextra
    have := (nests_commaSeparated hlist).bracketed
    rwa [hfold, List.foldr_cons, List.foldr_nil, Nat.max_zero] at this
  · have := (nests_commaSeparated (List.rel_append h hextra)).bracketed
    rwa [hfold] at this

/-- What is written for an expression nests its brackets. -/
theorem nests_spelled (e : Expr) : Nests (brackets e) (w.spelled e) := by
  induction e using Expr.induction with
  | number value => exact nests_numberTokens value
  | name name => exact nests_single fun _ => rfl
  | negate operand ih => exact (ih.bracketedIf _).cons fun _ => rfl
  | binary op lhs rhs ihl ihr =>
    exact (ihl.bracketedIf _).append ((ihr.bracketedIf _).cons (depthAfter_operatorToken op))
  | conditional condition ifTrue ifFalse ihc iht ihf =>
    refine (iht.bracketedIf _).append (.cons (fun _ => rfl) ?_)
    exact (ihc.bracketedIf _).append ((ihf.bracketedIf _).cons fun _ => rfl)
  | call f args ih =>
    rw [brackets, bracketsAll_eq, spelled, spelledAll_eq_map]
    exact (nests_call f (nests_rows ih)).cons fun _ => rfl
  | step name op =>
    exact (((nests_steppedTokens name op).cons fun _ => rfl).cons fun _ => rfl).bracketed
  | misplaced display => exact nests_nil

end Expressions

/-! ### Functions -/

/-- How many brackets of a statement are open at once. -/
def lineBrackets : Stmt → Nat
  | .result (.step _ _) => 0
  | .result value | .assign _ value | .unpack _ value => brackets value
  | .assignEach [_] (value :: _) => brackets value
  | .assignEach _ values => bracketsAll values
  | .block _ | .empty | .misplaced _ => 0

/-- How many brackets of the last statement are open at once. -/
def finalBrackets : Stmt → Nat
  | .result value => brackets value
  | s => lineBrackets s

/-- How many brackets of a function are open at once: its parameters have one. -/
def functionBrackets (ss : List Stmt) (last : Stmt) : Nat :=
  max 1 (max ((ss.map lineBrackets).foldr max 0) (finalBrackets last))

section Functions

variable {w : HostWriter}

theorem nests_names (names : List String) :
    Nests 0 (commaSeparated (names.map fun name => [.name (w.variableText name)])) := by
  have hzero : (names.map fun _ => 0).foldr max 0 = 0 := by
    induction names with
    | nil => rfl
    | cons name names ih => exact congrArg (max 0) ih
  have hrows : List.Forall₂ Nests (names.map fun _ => 0)
      (names.map fun name => [.name (w.variableText name)]) :=
    nests_rows fun _ _ => nests_single fun _ => rfl
  exact hzero ▸ nests_commaSeparated hrows

theorem nests_targetTokens (names : List String) : Nests 0 (w.targetTokens names) := by
  match names with
  | [name] => exact (nests_single fun _ => rfl).cons fun _ => rfl
  | [] => exact nests_nil
  | name :: name' :: names => exact nests_names (name :: name' :: names)

/-- What is written for a statement nests its brackets. -/
theorem nests_lineTokens (s : Stmt) : Nests (lineBrackets s) (w.lineTokens s) := by
  -- a name and the mark behind it have no brackets
  have hassign : ∀ {n name ts}, Nests n ts → Nests n (.name (w.variableText name) :: .mark "=" :: ts) :=
    fun h => (h.cons fun _ => rfl).cons fun _ => rfl
  have hunpack : ∀ {n names ts}, Nests n ts → Nests n (w.targetTokens names ++ .mark "=" :: ts) := by
    intro n names ts h
    have := (nests_targetTokens (w := w) names).append (h.cons (t := .mark "=") fun _ => rfl)
    rwa [Nat.zero_max] at this
  have hvalues : ∀ values, Nests (bracketsAll values) (commaSeparated (w.spelledAll values)) := by
    intro values
    rw [bracketsAll_eq, spelledAll_eq_map]
    exact nests_commaSeparated (nests_rows fun e _ => nests_spelled e)
  match s with
  | .result value =>
    rcases step_or_ne value with ⟨name, op, rfl⟩ | hother
    · exact hassign (nests_steppedTokens name op)
    · rw [lineTokens_result w hother]
      cases value with
      | step name op => exact absurd rfl (hother name op)
      | _ => exact nests_spelled _
  | .assign name value => exact hassign (nests_spelled value)
  | .unpack names value => exact hunpack (nests_spelled value)
  | .assignEach [name] (value :: _) => exact hassign (nests_spelled value)
  | .assignEach [name] [] => exact hunpack (hvalues [])
  | .assignEach [] values => exact hunpack (hvalues values)
  | .assignEach (_ :: _ :: _) values => exact hunpack (hvalues values)
  | .block _ | .empty | .misplaced _ => exact nests_nil

theorem nests_finalTokens (s : Stmt) :
    Nests (finalBrackets s) ((w.finalTokens s).flatMap (.line 4 :: ·)) := by
  have hreturn : ∀ {n ts}, Nests n ts → Nests n (.line 4 :: .name "return" :: ts) :=
    fun h => (h.cons fun _ => rfl).cons fun _ => rfl
  have hlines : ∀ {s ts}, Nests 0 ts →
      Nests (lineBrackets s) (.line 4 :: w.lineTokens s ++ .line 4 :: .name "return" :: ts) := by
    intro s ts h
    have := ((nests_lineTokens (w := w) s).cons (t := .line 4) fun _ => rfl).append (hreturn h)
    rwa [Nat.max_zero] at this
  cases s with
  | result value => simpa [finalTokens, finalBrackets] using hreturn (nests_spelled value)
  | assign name value =>
    simpa [finalTokens, finalBrackets] using hlines (s := .assign name value) (nests_single fun _ => rfl)
  | unpack names value =>
    simpa [finalTokens, finalBrackets] using hlines (s := .unpack names value) (nests_targetTokens names)
  | assignEach names values =>
    have hlast : Nests 0 (names.getLast?.map fun name => HostToken.name (w.variableText name)).toList := by
      cases names.getLast? with
      | none => exact nests_nil
      | some name => exact nests_single fun _ => rfl
    simpa [finalTokens, finalBrackets] using hlines (s := .assignEach names values) hlast
  | _ => exact nests_nil

theorem nests_bodyTokens (ss : List Stmt) (last : Stmt) :
    Nests (max ((ss.map lineBrackets).foldr max 0) (finalBrackets last))
      ((w.bodyTokens ss last).flatMap (.line 4 :: ·)) := by
  have hangle : ∀ (name : String) (value : Float),
      Nests 0 (.line 4 :: .name name :: .mark "=" :: numberTokens value) := fun _ value =>
    (((nests_numberTokens value).cons fun _ => rfl).cons fun _ => rfl).cons fun _ => rfl
  have hlines : Nests ((ss.map lineBrackets).foldr max 0)
      ((ss.map w.lineTokens).flatMap (.line 4 :: ·)) :=
    nests_flatMap (fun _ => rfl) (nests_rows fun s _ => nests_lineTokens s)
  have := (hangle "a0" w.a0).append ((hangle "a1" w.a1).append
    (hlines.append (nests_finalTokens (w := w) last)))
  rw [Nat.zero_max, Nat.zero_max] at this
  simpa [bodyTokens] using this

/-- What is written for a function nests its brackets. -/
theorem nests_functionTokens (ss : List Stmt) (last : Stmt) :
    Nests (functionBrackets ss last) (w.functionTokens ss last) := by
  have hcoordinates : Nests 0 [.name "x", .mark ",", .name "y", .mark ",", .name "z"] := by
    iterate 4 refine .cons (fun _ => rfl) ?_
    exact nests_single fun _ => rfl
  have hparameters := hcoordinates.bracketed.append
    ((nests_bodyTokens (w := w) ss last).cons (t := .mark ":") fun _ => rfl)
  exact ((hparameters.cons fun _ => rfl).cons fun _ => rfl).cons fun _ => rfl

/-- A text nests as many brackets as the function that it is written for. -/
theorem nesting_of_tokens {text : List Char} {ss : List Stmt} {last : Stmt}
    (h : hostTokens text = some (w.functionTokens ss last)) :
    nesting text = functionBrackets ss last := by
  rw [nesting, h]
  exact ((nests_functionTokens ss last).deepest 0).trans (Nat.zero_add _)

end Functions

end FieldLang.HostWriter
