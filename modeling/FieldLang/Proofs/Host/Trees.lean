/-
The trees that generated code is read as.

* `HostWriter.tree`, `HostWriter.line`, `HostWriter.finalLines` : the tree of an expression, and the
  lines of a statement;
* `Clashes` : the names that a function should not have;
* `variableText_injective`, `variableText_not_mem`, `variableText_ne_function` : a variable keeps
  apart from the others, from the names that the host needs and from the function.

Design notes: names of programs have no underscores, so one behind a name cannot make it another.
-/
import FieldLang.Host.Reader
import FieldLang.Proofs.Syntax.Lexing
import FieldLang.Writing.Target
import Mathlib.Data.List.Forall2

namespace FieldLang.HostWriter

open Host Writing

/-! ### Names -/

/-- A letter with letters and digits behind it. -/
def IsIdentifier (name : String) : Prop :=
  ∃ c rest, name.toList = c :: rest ∧ c.isAlpha = true ∧ ∀ d ∈ rest, d.isAlphanum = true

/-- The parameters of a generated function and the angles that it binds. -/
def givenNames : List String := ["x", "y", "z", "a0", "a1"]

/-- A name of a function that a variable of some program is spelled as, too, or that takes its
spelling from a parameter or an angle. -/
def Clashes (functionName : String) : Prop :=
  functionName ∈ givenNames ∨ ∃ name ∈ reservedWords, IsName name ∧ functionName = name ++ "_"

section Names

variable {name other : String}

theorem isIdentifier_of_isName (h : IsName name) : IsIdentifier name := by
  obtain ⟨c, rest, hname, hc, hrest, -⟩ := isName_iff.mp h
  exact ⟨c, rest, hname, hc, hrest⟩

theorem underscore_not_mem (h : IsIdentifier name) : '_' ∉ name.toList := by
  obtain ⟨c, rest, hname, hc, hrest⟩ := h
  rw [hname]
  intro hm
  rcases List.mem_cons.mp hm with rfl | hm
  · exact absurd hc (by decide)
  · exact absurd (hrest _ hm) (by decide)

theorem append_underscore_ne (h : IsIdentifier name) : other ++ "_" ≠ name := by
  rintro rfl
  refine underscore_not_mem h ?_
  rw [String.toList_append]
  exact List.mem_append_right _ (List.mem_singleton.mpr rfl)

/-- A name with an underscore is none of some words that do not end in one. -/
theorem append_underscore_not_mem (name : String) {words : List String}
    (hlast : ∀ word ∈ words, word.toList.getLast? ≠ some '_') : name ++ "_" ∉ words := by
  intro h
  refine hlast _ h ?_
  rw [String.toList_append]
  exact List.getLast?_concat

/-- The parameters and the angles are names of variables. -/
theorem isName_given (h : name ∈ givenNames) : IsName name := by
  have hgiven : ∃ c rest, name.toList = c :: rest ∧ c.isAlpha = true ∧
      (∀ d ∈ rest, d.isAlphanum = true) ∧ Builtin.ofMnemonic? name = none := by
    simp only [givenNames, List.mem_cons, List.not_mem_nil, or_false] at h
    rcases h with rfl | rfl | rfl | rfl | rfl
    · exact ⟨'x', [], rfl, by decide, by decide, by decide⟩
    · exact ⟨'y', [], rfl, by decide, by decide, by decide⟩
    · exact ⟨'z', [], rfl, by decide, by decide, by decide⟩
    · exact ⟨'a', ['0'], rfl, by decide, by decide, by decide⟩
    · exact ⟨'a', ['1'], rfl, by decide, by decide, by decide⟩
  exact isName_iff.mpr hgiven

/-- The function's name does not clash unless another one is asked for. -/
theorem not_clashes_default : ¬Clashes defaultFunctionName := by
  rintro (hgiven | ⟨name, -, -, heq⟩)
  · revert hgiven
    decide
  · have hlast : ∀ word ∈ [defaultFunctionName], word.toList.getLast? ≠ some '_' := by decide
    exact append_underscore_not_mem name hlast (List.mem_singleton.mpr heq.symm)

variable {w : HostWriter}

/-- A variable is spelled as it is named, or with an underscore. -/
theorem variableText_cases (w : HostWriter) (name : String) :
    (w.variableText name = name ++ "_" ∧ (name ∈ reservedWords ∨ name = w.functionName)) ∨
      (w.variableText name = name ∧ name ∉ reservedWords ∧ name ≠ w.functionName) := by
  rw [variableText]
  split
  · next h =>
    rw [Bool.or_eq_true, List.contains_iff_mem, beq_iff_eq] at h
    exact .inl ⟨rfl, h⟩
  · next h =>
    rw [Bool.or_eq_true, List.contains_iff_mem, beq_iff_eq, not_or] at h
    exact .inr ⟨rfl, h⟩

/-- Reserved words and the function's own name are spelled with an underscore. -/
theorem variableText_of_taken {w : HostWriter} {name : String}
    (h : name ∈ reservedWords ∨ name = w.functionName) : w.variableText name = name ++ "_" := by
  rcases variableText_cases w name with ⟨ht, -⟩ | ⟨-, hfree⟩
  · exact ht
  · exact absurd h (not_or.mpr hfree)

/-- Different variables are spelled differently. -/
theorem variableText_injective (h : IsIdentifier name) (h' : IsIdentifier other)
    (heq : w.variableText name = w.variableText other) : name = other := by
  rcases variableText_cases w name with ⟨ht, -⟩ | ⟨ht, -⟩ <;>
    rcases variableText_cases w other with ⟨ht', -⟩ | ⟨ht', -⟩ <;> rw [ht, ht'] at heq
  · exact String.append_left_inj "_" |>.mp heq
  · exact absurd heq (append_underscore_ne h')
  · exact absurd heq.symm (append_underscore_ne h)
  · exact heq

/-- A variable is not spelled like some reserved words that do not end in an underscore. -/
theorem variableText_not_mem_words (name : String) {words : List String}
    (hreserved : ∀ word ∈ words, word ∈ reservedWords)
    (hlast : ∀ word ∈ words, word.toList.getLast? ≠ some '_') : w.variableText name ∉ words := by
  rcases variableText_cases w name with ⟨ht, -⟩ | ⟨ht, hnot, -⟩ <;> rw [ht]
  · exact append_underscore_not_mem name hlast
  · exact fun hm => hnot (hreserved name hm)

/-- A variable is not spelled like a name that the host needs. -/
theorem variableText_not_mem (name : String) : w.variableText name ∉ globalNames :=
  variableText_not_mem_words name (fun _ hm => List.mem_append_right _ hm) (by decide)

/-- A variable is not spelled like a keyword of the host. -/
theorem variableText_not_mem_keywords (name : String) : w.variableText name ∉ keywords :=
  variableText_not_mem_words name
    (fun _ hm => List.mem_append_left _ (List.mem_append_left _ hm)) (by decide)

theorem isName_variableText (name : String) : Host.isName (w.variableText name) = true := by
  rw [Host.isName, List.contains_eq_mem, decide_eq_false (variableText_not_mem_keywords name)]
  rfl

/-- A parameter or an angle is spelled as it is named, unless it is the name of the function. -/
theorem variableText_given_iff (h : name ∈ givenNames) :
    w.variableText name = name ↔ name ≠ w.functionName := by
  have hreserved : ∀ name ∈ givenNames, name ∉ reservedWords := by decide
  rcases variableText_cases w name with ⟨ht, hcause⟩ | ⟨ht, -, hne⟩
  · rw [ht]
    have hidentifier := isIdentifier_of_isName (isName_given h)
    exact ⟨fun heq => absurd heq (append_underscore_ne hidentifier),
      fun hne => (hcause.resolve_left (hreserved name h) |> hne).elim⟩
  · exact ⟨fun _ => hne, fun _ => ht⟩

/-- A variable is spelled like the function if it is reserved and the function is called like it with
an underscore. -/
theorem variableText_eq_function_iff (h : IsIdentifier name) :
    w.variableText name = w.functionName ↔ name ∈ reservedWords ∧ w.functionName = name ++ "_" := by
  rcases variableText_cases w name with ⟨ht, hcause⟩ | ⟨ht, hnot, hne⟩ <;> rw [ht]
  · refine ⟨fun heq => ⟨hcause.resolve_right fun hname => ?_, heq.symm⟩, fun h' => h'.2.symm⟩
    exact append_underscore_ne h (heq.trans hname.symm)
  · exact ⟨fun heq => absurd heq hne, fun h' => absurd h'.1 hnot⟩

variable (hw : ¬Clashes w.functionName)
include hw

theorem variableText_given (h : name ∈ givenNames) : w.variableText name = name :=
  (variableText_given_iff h).mpr fun heq => hw (.inl (heq ▸ h))

theorem variableText_ne_function (h : IsName name) : w.variableText name ≠ w.functionName :=
  fun heq =>
    have ⟨hreserved, heq⟩ := (variableText_eq_function_iff (isIdentifier_of_isName h)).mp heq
    hw (.inr ⟨name, hreserved, h, heq⟩)

end Names

/-! ### Trees -/

/-- The tree of a finite number without its sign. -/
def magnitudeTree (mag : Decimal.Magnitude) : HostExpr :=
  if isShortWhole mag then .whole mag.whole else .real (Decimal.ofMagnitude mag)

/-- The tree of a literal. -/
def numberTree (value : Float) : HostExpr :=
  match Decimal.parts value with
  | .nan => .name "nan"
  | .infinite false => .name "inf"
  | .infinite true => .negate (.name "inf")
  | .finite false mag => magnitudeTree mag
  | .finite true mag => .negate (magnitudeTree mag)

variable (w : HostWriter)

/-- The trees of the arguments that the host function needs besides those of the program. -/
def extraTrees : Builtin → List HostExpr
  | .rot0 => [.name "a0"]
  | .rot1 => [.name "a1"]
  | _ => []

/-- The arguments of a call, of which the combinators of distances take one row. -/
def gathered {α : Type} (f : Builtin) (row : List α → α) (args : List α) : List α :=
  match f with
  | .union | .intersect | .roundMin | .roundMax => [row args]
  | _ => args

theorem gathered_eq {α : Type} (f : Builtin) (row : List α → α) (args : List α) :
    gathered f row args = if f.variadic then [row args] else args := by
  cases f <;> rfl

theorem forall₂_gathered {α β : Type} {R : α → β → Prop} {row : List α → α} {row' : List β → β}
    {args : List α} {args' : List β} (f : Builtin) (hrow : R (row args) (row' args'))
    (h : List.Forall₂ R args args') :
    List.Forall₂ R (gathered f row args) (gathered f row' args') := by
  rw [gathered_eq, gathered_eq]
  split
  · exact .cons hrow .nil
  · exact h

/-- An expression is a step, or it is none. -/
theorem step_or_ne (value : Expr) :
    (∃ name op, value = .step name op) ∨ ∀ name op, value ≠ .step name op := by
  cases value with
  | step name op => exact .inl ⟨name, op, rfl⟩
  | _ => exact .inr nofun

/-- A variable after a step. -/
def stepped (name : String) (op : StepOp) : HostExpr :=
  .binary op.toBinOp (.name (w.variableText name)) (.whole 1)

mutual

/-- The tree of an expression. -/
def tree : Expr → HostExpr
  | .number value => numberTree value
  | .variable name => .name (w.variableText name)
  | .negate operand => .negate (tree operand)
  | .binary op lhs rhs =>
    if (operator op).2 = comparisonRank then .compare [tree lhs, tree rhs] [op]
    else .binary op (tree lhs) (tree rhs)
  | .conditional condition ifTrue ifFalse =>
    .conditional (tree ifTrue) (tree condition) (tree ifFalse)
  | .call f args =>
    .call f.name (gathered f .list (trees args) ++ extraTrees f)
  | .step name op => .bind (w.variableText name) (w.stepped name op)
  | .misplaced _ => .tuple []

/-- The trees of expressions in a row. -/
def trees : List Expr → List HostExpr
  | [] => []
  | e :: es => tree e :: trees es

end

theorem trees_eq_map (es : List Expr) : w.trees es = es.map w.tree := by
  induction es with
  | nil => rfl
  | cons e es ih => rw [trees, ih, List.map_cons]

/-- The line of a statement. -/
def line : Stmt → HostStmt
  | .result (.step name op) => .assign (.name (w.variableText name)) (w.stepped name op)
  | .result value => .expr (w.tree value)
  | .assign name value => .assign (.name (w.variableText name)) (w.tree value)
  | .unpack names value => .assign (.names (names.map w.variableText)) (w.tree value)
  | .assignEach [name] (value :: _) => .assign (.name (w.variableText name)) (w.tree value)
  | .assignEach names values =>
    .assign (.names (names.map w.variableText)) (.tuple (values.map w.tree))
  | .block _ | .empty | .misplaced _ => .return none

/-- Any expression but a step is a line of its own. -/
theorem line_result {value : Expr} (h : ∀ name op, value ≠ .step name op) :
    w.line (.result value) = .expr (w.tree value) := by
  cases value with
  | step name op => exact absurd rfl (h name op)
  | _ => rfl

/-- The lines of the last statement. -/
def finalLines : Stmt → List HostStmt
  | .result value => [.return (some (w.tree value))]
  | .assign name value =>
    [w.line (.assign name value), .return (some (.name (w.variableText name)))]
  | .unpack names value =>
    [w.line (.unpack names value),
     .return (some (.tuple (names.map fun name => .name (w.variableText name))))]
  | .assignEach names values =>
    [w.line (.assignEach names values),
     .return (names.getLast?.map fun name => .name (w.variableText name))]
  | .block _ | .empty | .misplaced _ => []

end FieldLang.HostWriter
