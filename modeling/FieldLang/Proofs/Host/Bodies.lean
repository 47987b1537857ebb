/-
The tokens that programs are written as, and the functions that they are read as.

* `lineTokens`, `finalTokens`, `functionTokens` : the tokens of a statement, of the last one and of
  the whole function;
* `ReadsLine`, `readsLine_statement`, `readsLine_final` : they are read as the lines of the function;
* `read?_functionTokens` : the function is read as it was written.
-/
import FieldLang.Proofs.Host.Function
import FieldLang.Proofs.Host.Phrases

namespace FieldLang.HostWriter

open Host Writing

/-! ### Tokens -/

variable (w : HostWriter)

/-- The tokens of names that a row of values is assigned to. -/
def targetTokens : List String → List HostToken
  | [name] => [.name (w.variableText name), .mark ","]
  | names => commaSeparated (names.map fun name => [.name (w.variableText name)])

/-- The tokens that a statement is written as. -/
def lineTokens : Stmt → List HostToken
  | .result (.step name op) => .name (w.variableText name) :: .mark "=" :: w.steppedTokens name op
  | .result value => w.spelled value
  | .assign name value => .name (w.variableText name) :: .mark "=" :: w.spelled value
  | .unpack names value => w.targetTokens names ++ .mark "=" :: w.spelled value
  | .assignEach [name] (value :: _) =>
    .name (w.variableText name) :: .mark "=" :: w.spelled value
  | .assignEach names values =>
    w.targetTokens names ++ .mark "=" :: commaSeparated (w.spelledAll values)
  | .block _ | .empty | .misplaced _ => []

theorem lineTokens_result {value : Expr} (h : ∀ name op, value ≠ .step name op) :
    w.lineTokens (.result value) = w.spelled value := by
  cases value with
  | step name op => exact absurd rfl (h name op)
  | _ => rfl

/-- The tokens of the lines of the last statement. -/
def finalTokens : Stmt → List (List HostToken)
  | .result value => [.name "return" :: w.spelled value]
  | .assign name value =>
    [w.lineTokens (.assign name value), [.name "return", .name (w.variableText name)]]
  | .unpack names value =>
    [w.lineTokens (.unpack names value), .name "return" :: w.targetTokens names]
  | .assignEach names values =>
    [w.lineTokens (.assignEach names values),
     .name "return" :: (names.getLast?.map fun name => .name (w.variableText name)).toList]
  | .block _ | .empty | .misplaced _ => []

/-- The tokens of the lines of a function. -/
def bodyTokens (ss : List Stmt) (last : Stmt) : List (List HostToken) :=
  (.name "a0" :: .mark "=" :: numberTokens w.a0) ::
    (.name "a1" :: .mark "=" :: numberTokens w.a1) ::
      (ss.map w.lineTokens ++ w.finalTokens last)

/-- The tokens of a function. -/
def functionTokens (ss : List Stmt) (last : Stmt) : List HostToken :=
  .line 0 :: .name "def" :: .name w.functionName :: .mark "(" :: .name "x" :: .mark "," ::
    .name "y" :: .mark "," :: .name "z" :: .mark ")" :: .mark ":" ::
      (w.bodyTokens ss last).flatMap (.line 4 :: ·)

/-! ### Rows -/

section Rows

variable {ts rest : List HostToken} {e : HostExpr}

theorem Leads.endsRow (h : Leads ts) (rest : List HostToken) :
    Host.endsRow (ts ++ rest) = false := by
  obtain ⟨t, us, rfl, ht, -⟩ := h
  rw [List.cons_append, endsRow.eq_def]
  split
  · next heq => cases heq
  · next heq =>
    cases heq
    cases ht
  · next heq =>
    cases heq
    exact absurd ht (by decide)
  · rfl

theorem Leads.no_return (h : Leads ts) (rest : List HostToken) :
    (ts ++ rest).head? ≠ some (.name "return") := by
  obtain ⟨t, us, rfl, ht, -⟩ := h
  rintro ⟨⟩
  exact absurd ht (by decide)

/-- An expression alone is no row. -/
theorem Sentence.row (h : Sentence ts e) (hrest : Host.endsRow rest = true) :
    Reads (Host.row (ts ++ rest)) e rest :=
  have ⟨hcloses, hcomma⟩ := closes_of_endsRow hrest
  reads_row_single (h.test rest hcloses) (keeps_row_end hcomma)

theorem keeps_sentences {tss : List (List HostToken)} {es : List HostExpr}
    (h : List.Forall₂ Sentence tss es) (hne : es ≠ []) (hrest : Host.endsRow rest = true) :
    Keeps (rowTail (tss.flatMap (.mark "," :: ·) ++ rest)) (es, true) rest := by
  obtain ⟨hcloses, hcomma⟩ := closes_of_endsRow hrest
  induction h with
  | nil => exact absurd rfl hne
  | @cons ts e tss es hfirst hmore ih =>
    rw [List.flatMap_cons, List.append_assoc, List.cons_append]
    cases hmore with
    | nil =>
      exact keeps_row (hfirst.leads.endsRow _) (hfirst.test rest hcloses) (keeps_row_end hcomma)
    | cons hsecond hmore =>
      refine keeps_row (hfirst.leads.endsRow _) (hfirst.test _ ?_) (ih (by simp))
      rw [List.flatMap_cons, List.append_assoc, List.cons_append]
      exact closes_mark (by simp) _

/-- Several expressions with commas between them are a tuple. -/
theorem reads_tuple {tss : List (List HostToken)} {es : List HostExpr}
    (h : List.Forall₂ Sentence tss es) (hlength : 2 ≤ es.length)
    (hrest : Host.endsRow rest = true) :
    Reads (Host.row (commaSeparated tss ++ rest)) (.tuple es) rest := by
  cases h with
  | nil => exact absurd hlength (by simp)
  | @cons ts e tss es hfirst hmore =>
    have hne : es ≠ [] := by
      rintro rfl
      exact absurd hlength (by simp)
    rw [commaSeparated, List.append_assoc]
    refine reads_row_tuple (hfirst.test _ ?_) (keeps_sentences hmore hne hrest)
    cases hmore with
    | nil => exact absurd rfl hne
    | cons hsecond hmore =>
      rw [List.flatMap_cons, List.append_assoc, List.cons_append]
      exact closes_mark (by simp) _

end Rows

/-! ### Lines -/

/-- A line ends before the next one. -/
structure EndsLine (rest : List HostToken) : Prop where
  row : endsRow rest = true
  assign : rest.head? ≠ some (.mark "=")

/-- The tokens are read as a line. -/
def ReadsLine (ts : List HostToken) (s : HostStmt) : Prop :=
  ∀ rest, EndsLine rest → Reads (Host.line (ts ++ rest)) s rest

theorem readsLine_assign {name : String} (hn : Host.isName name = true) {ts : List HostToken}
    {e : HostExpr} (h : Sentence ts e) :
    ReadsLine (.name name :: .mark "=" :: ts) (.assign (.name name) e) := by
  intro rest hrest
  have hname : Sentence [.name name] (.name name) := (phrase_name hn).toSentence
  exact reads_assign (hname.leads.no_return _) (hname.row rfl) rfl (h.row hrest.row)

theorem readsLine_expr {ts : List HostToken} {e : HostExpr} (h : Sentence ts e) :
    ReadsLine ts (.expr e) :=
  fun rest hrest => reads_expr (h.leads.no_return rest) (h.row hrest.row) hrest.assign

theorem readsLine_return {ts : List HostToken} {e : HostExpr} (h : Sentence ts e) :
    ReadsLine (.name "return" :: ts) (.return (some e)) :=
  fun rest hrest => reads_return (h.leads.endsRow rest) (h.row hrest.row)

/-- The lines of a function are read one after the other. -/
theorem block_lines {tss : List (List HostToken)} {ss : List HostStmt}
    (h : List.Forall₂ ReadsLine tss ss) (indent : Nat) :
    block indent (tss.flatMap (.line indent :: ·)) = some ss := by
  induction h with
  | nil => exact block_nil indent
  | @cons ts s tss ss hfirst hmore ih =>
    rw [List.flatMap_cons, List.cons_append]
    -- a line ends at the end of the text or at the beginning of the next line
    refine block_cons (hfirst _ ?_) ih
    cases hmore with
    | nil => exact ⟨rfl, by simp⟩
    | cons hsecond hmore => exact ⟨rfl, by simp⟩

section Statements

variable {w : HostWriter}

theorem targetOf?_names (names : List String) :
    targetOf? (.tuple (names.map fun name => .name (w.variableText name))) =
      some (.names (names.map w.variableText)) := by
  have hmap : (names.map fun name => HostExpr.name (w.variableText name)).mapM nameOf? =
      some (names.map w.variableText) := by
    induction names with
    | nil => rfl
    | cons name names ih =>
      rw [List.map_cons, List.mapM_cons, ih]
      rfl
  rw [targetOf?, hmap]
  rfl

/-! ### Lines -/

theorem sentence_variable (name : String) :
    Sentence [.name (w.variableText name)] (.name (w.variableText name)) :=
  (phrase_name (isName_variableText name)).toSentence

theorem sentences_variables (names : List String) :
    List.Forall₂ Sentence (names.map fun name => [.name (w.variableText name)])
      (names.map fun name => .name (w.variableText name)) := by
  rw [List.forall₂_map_left_iff, List.forall₂_map_right_iff, List.forall₂_same]
  exact fun name _ => sentence_variable name

/-- Names that a row is assigned to are a tuple, even a single one. -/
theorem reads_targets {names : List String} (hne : names ≠ []) {rest : List HostToken}
    (hrest : endsRow rest = true) :
    Reads (row (w.targetTokens names ++ rest))
      (.tuple (names.map fun name => .name (w.variableText name))) rest := by
  match names, hne with
  | [name], _ =>
    rw [targetTokens]
    exact reads_row_tuple ((sentence_variable name).test _ (closes_mark (by simp) rest))
      (keeps_last_comma hrest)
  | name :: name' :: names, _ =>
    rw [targetTokens]
    · exact reads_tuple (sentences_variables _) (by simp) hrest
    · simp

theorem leads_targets {names : List String} (hne : names ≠ []) :
    Leads (w.targetTokens names) := by
  match names, hne with
  | [name], _ => exact leads_cons (isName_variableText name) (by simp)
  | name :: name' :: names, _ => exact leads_cons (isName_variableText name) (by simp)

theorem readsLine_unpack {names : List String} (hne : names ≠ []) {ts : List HostToken}
    {e : HostExpr}
    (hvalue : ∀ rest, EndsLine rest → Reads (Host.row (ts ++ rest)) e rest) :
    ReadsLine (w.targetTokens names ++ .mark "=" :: ts)
      (.assign (.names (names.map w.variableText)) e) := by
  intro rest hrest
  rw [List.append_assoc]
  exact reads_assign ((leads_targets hne).no_return _) (reads_targets hne rfl)
    (targetOf?_names names) (hvalue rest hrest)

/-- The tokens of a statement are read as its line. -/
theorem readsLine_statement {s : Stmt} (hn : s.Named) (hblock : ∀ ss, s ≠ .block ss)
    (hne : s ≠ .empty) : ReadsLine (w.lineTokens s) (w.line s) := by
  match s with
  | .result value =>
    rcases step_or_ne value with ⟨name, op, rfl⟩ | hother
    · exact readsLine_assign (isName_variableText name) (phrase_stepped name op)
    · rw [line_result w hother, lineTokens_result w hother]
      exact readsLine_expr (phrase_spelled hn).toSentence
  | .assign name value =>
    exact readsLine_assign (isName_variableText name) (phrase_spelled hn.2).toSentence
  | .unpack names value =>
    exact readsLine_unpack hn.1
      fun rest hrest => (phrase_spelled hn.2.2).toSentence.row hrest.row
  | .assignEach names values =>
    obtain ⟨hnonempty, -, hlength, hvalues⟩ := hn
    -- one name is assigned its value, several names are assigned a tuple
    match names, values with
    | [name], value :: _ =>
      exact readsLine_assign (isName_variableText name) (phrase_spelled hvalues.1).toSentence
    | [_], [] => exact absurd hlength (by simp)
    | [], _ => exact absurd rfl hnonempty
    | name :: name' :: names, values =>
      rw [lineTokens, line]
      · refine readsLine_unpack hnonempty fun rest hrest => ?_
        refine reads_tuple ?_ (by simp [hlength]) hrest.row
        rw [spelledAll_eq_map, List.forall₂_map_left_iff, List.forall₂_map_right_iff,
          List.forall₂_same]
        exact fun e he => (phrase_spelled (namedAll_iff.mp hvalues e he)).toSentence
      · simp
      · simp
  | .block ss => exact absurd rfl (hblock ss)
  | .empty => exact absurd rfl hne
  | .misplaced _ => exact hn.elim

/-- The tokens of the last statement are read as its lines. -/
theorem readsLine_final {s : Stmt} (hn : s.Named) (hblock : ∀ ss, s ≠ .block ss)
    (hne : s ≠ .empty) : List.Forall₂ ReadsLine (w.finalTokens s) (w.finalLines s) := by
  match s with
  | .result value => exact .cons (readsLine_return (phrase_spelled hn).toSentence) .nil
  | .assign name value =>
    exact .cons (readsLine_statement hn hblock hne)
      (.cons (readsLine_return (sentence_variable name)) .nil)
  | .unpack names value =>
    refine .cons (readsLine_statement hn hblock hne) (.cons (fun rest hrest => ?_) .nil)
    exact reads_return ((leads_targets hn.1).endsRow rest)
      (reads_targets hn.1 hrest.row)
  | .assignEach names values =>
    obtain ⟨name, hname⟩ : ∃ name, names.getLast? = some name :=
      Option.ne_none_iff_exists'.mp (by simpa using hn.1)
    rw [finalTokens, finalLines, hname]
    exact .cons (readsLine_statement hn hblock hne)
      (.cons (readsLine_return (sentence_variable name)) .nil)
  | .block ss => exact absurd rfl (hblock ss)
  | .empty => exact absurd rfl hne
  | .misplaced _ => exact hn.elim

/-- A function is read as it was written. -/
theorem read?_functionTokens (hname : w.functionName ≠ constantName) {ss : List Stmt} {last : Stmt}
    (hn : AllSimple (ss ++ [last])) {text : List Char}
    (htext : hostTokens text = some (w.functionTokens ss last)) :
    HostFunction.read? text = some (w.function ss last) := by
  have hangle : ∀ (name : String) (value : Float), Host.isName name = true →
      ReadsLine (.name name :: .mark "=" :: numberTokens value)
        (.assign (.name name) (numberTree value)) :=
    fun name value hname => readsLine_assign hname (phrase_number value).toSentence
  have hlines : List.Forall₂ ReadsLine (w.bodyTokens ss last) (w.function ss last).body := by
    refine .cons (hangle "a0" w.a0 (by decide)) (.cons (hangle "a1" w.a1 (by decide))
      (List.rel_append ?_ ?_))
    · rw [List.forall₂_map_left_iff, List.forall₂_map_right_iff, List.forall₂_same]
      intro s hs
      obtain ⟨hnamed, hblock, hne⟩ := hn s (List.mem_append_left _ hs)
      exact readsLine_statement hnamed hblock hne
    · obtain ⟨hnamed, hblock, hne⟩ := hn last (by simp)
      exact readsLine_final hnamed hblock hne
  have hblock := block_lines hlines 4
  rw [HostFunction.read?, htext]
  simp only [bodyTokens, List.flatMap_cons, List.cons_append] at hblock
  simp only [functionTokens, bodyTokens, List.flatMap_cons, List.cons_append, bind, Option.bind]
  rw [if_neg (not_or.mpr ⟨by decide, hname⟩), hblock]
  rfl

/-- No text defines a function of the name that the host lets nobody bind. -/
theorem read?_constantName (hname : w.functionName = constantName) {ss : List Stmt} {last : Stmt}
    {text : List Char} (htext : hostTokens text = some (w.functionTokens ss last)) :
    HostFunction.read? text = none := by
  rw [HostFunction.read?, htext]
  simp only [functionTokens, bodyTokens, List.flatMap_cons, List.cons_append, bind, Option.bind]
  rw [if_pos (.inr hname)]

end Statements

end FieldLang.HostWriter
