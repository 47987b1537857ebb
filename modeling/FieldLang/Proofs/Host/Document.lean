/-
The texts of generated functions.

* `LineDoc`, `statement_ok` : what a statement is written as;
* `statement_spells`, `final_spells` : what is written for a statement, and for the last one;
* `lexes_line`, `lexes_lines` : lines at an indentation;
* `simpleStatements`, `lexes_document` : a function is written from the simple statements of a program;
* `hostTokens_generate` : the text of a program has the tokens of its function.

Design notes: outside of brackets a line feed begins a line. Whatever is written for a line begins
with a character that is no blank, so its indentation is that of the body.
-/
import FieldLang.Proofs.Host.Bodies
import FieldLang.Proofs.Host.Texts
import FieldLang.Proofs.Writing.Sentences

namespace FieldLang.HostWriter

open Host Layout Writing

variable {w : HostWriter}

/-! ### Statements -/

/-- An expression in a place that takes any. -/
theorem Writes.anywhere {e : Expr} {r : Ranked} (h : Writes w e r) :
    Spells (r.within 0) (w.spelled e) := by
  have := h.within 0
  rwa [bracketedIf, if_neg (by simp)] at this

theorem spells_assign {target doc : Doc} {ts us : List HostToken} (ht : Spells target ts)
    (h : ∀ d, SpellsRow d [doc] us) :
    Spells (.concat [target, .text " = ", doc]) (ts ++ .mark "=" :: us) :=
  SpellsRow.concat (fun d => (gap_spaced (lexes_equals d)).between ht (h d)) ht

/-- A keyword in front of what it returns. -/
theorem lexes_return {u : List Char} {ts : List HostToken} {d : Nat} (h : Lexes d u ts d) :
    Lexes d ("return ".toList ++ u) (.name "return" :: ts) d := by
  have hvalue : Lexes d (' ' :: u) ts d := (separates_space d).append_lexes h
  exact ((isWord_given "return" (by simp)).lexes d).append_lexes (by decide) hvalue

theorem spells_return {doc : Doc} {ts : List HostToken} (h : Spells doc ts) :
    Spells (.concat [.text "return ", doc]) (.name "return" :: ts) := by
  rintro indent t ⟨_, _, rfl, rfl, u, _, rfl, hu, rfl⟩
  rw [List.append_nil]
  exact ⟨⟨'r', _, rfl, by decide⟩, fun d => lexes_return ((h indent u hu).2 d)⟩

theorem spells_return_variable {name : String} (h : IsName name) :
    Spells (.text ("return " ++ w.variableText name)) [.name "return", .name (w.variableText name)] := by
  refine spells_text ?_ fun d => ?_
  · rw [String.toList_append]
    exact ⟨'r', _, rfl, by decide⟩
  · rw [String.toList_append]
    exact lexes_return ((isWord_variableText h).lexes d)

/-- Words with commas between them. -/
theorem lexes_words {words : List String} (h : ∀ s ∈ words, IsWord s) (d : Nat) :
    Lexes d (", ".intercalate words).toList (commaSeparated (words.map fun s => [.name s])) d := by
  induction words with
  | nil => exact lexes_nil d
  | cons s words ih =>
    have hs := (h s (List.mem_cons_self ..)).lexes d
    have hmore := ih fun s hs => h s (List.mem_cons_of_mem _ hs)
    cases words with
    | nil =>
      rw [String.intercalate_singleton]
      simpa [commaSeparated] using hs
    | cons s' words =>
      rw [String.intercalate_cons_cons, String.toList_append, String.toList_append,
        List.append_assoc]
      have hcomma : Separates d ", ".toList [.mark ","] d :=
        (separates_comma d).append (separates_space d)
      exact hs.append_lexes (c := ',') (by decide) (hcomma.append_lexes hmore)

theorem targets_ok {names : List String} {texts : List String}
    (h : names.mapM w.target = .ok texts) : texts = names.map w.variableText := by
  induction names generalizing texts with
  | nil =>
    cases h
    rfl
  | cons name names ih =>
    rw [List.mapM_cons] at h
    obtain ⟨text, htext, h⟩ := bind_eq_ok.mp h
    obtain ⟨rest, hrest, h⟩ := bind_eq_ok.mp h
    cases h
    rw [List.map_cons, target_ok htext, ih hrest]

theorem spells_targets {names : List String} {doc : Doc} (hne : names ≠ [])
    (hn : ∀ name ∈ names, IsName name) (h : w.targets names = .ok doc) :
    Spells doc (w.targetTokens names) := by
  have hwords : ∀ s ∈ names.map w.variableText, IsWord s := by
    intro s hs
    obtain ⟨name, hname, rfl⟩ := List.mem_map.mp hs
    exact isWord_variableText (hn name hname)
  obtain ⟨texts, htexts, h⟩ := bind_eq_ok.mp h
  obtain rfl := targets_ok htexts
  -- a comma behind a single name makes it a tuple
  match names, hne with
  | [name], _ =>
    cases h
    have hname := isWord_variableText (w := w) (hn name (by simp))
    refine spells_text ?_ fun d => ?_
    · rw [String.toList_append]
      exact hname.visible.append _
    · rw [String.toList_append, targetTokens]
      exact ((hname.lexes d).append (by decide) (separates_comma d)).lexes
  | name :: name' :: names, _ =>
    cases h
    have hname := isWord_variableText (w := w) (hn name (by simp))
    have hlexes := lexes_words hwords
    rw [List.map_map] at hlexes
    refine spells_text ?_ fun d => ?_
    · rw [List.map_cons, String.intercalate_cons_cons, String.toList_append, String.toList_append,
        List.append_assoc]
      exact hname.visible.append _
    · rw [targetTokens]
      · exact hlexes d
      · simp

theorem statement_result {value : Expr} (h : ∀ name op, value ≠ .step name op) :
    w.statement (.result value) = do return (← w.expr value).within 0 := by
  cases value with
  | step name op => exact absurd rfl (h name op)
  | _ => rfl

/-- What a statement is written as: a name, or names, that something is assigned to, or an expression
alone. -/
inductive LineDoc (w : HostWriter) : Stmt → Doc → Prop
  | stepped {name op} : LineDoc w (.result (.step name op))
      (.text (w.variableText name ++ " = " ++ w.variableText name ++ " " ++ stepSign op ++ " 1"))
  | result {value r} : (∀ name op, value ≠ .step name op) → w.expr value = .ok r →
      LineDoc w (.result value) (r.within 0)
  | assign {name value r} : w.expr value = .ok r →
      LineDoc w (.assign name value)
        (.concat [.text (w.variableText name), .text " = ", r.within 0])
  | unpack {names value target r} : w.targets names = .ok target → w.expr value = .ok r →
      LineDoc w (.unpack names value) (.concat [target, .text " = ", r.within 0])
  | single {name value r} : w.expr value = .ok r →
      LineDoc w (.assignEach [name] [value])
        (.concat [.text (w.variableText name), .text " = ", r.within 0])
  | assignEach {name name' names values target docs} :
      w.targets (name :: name' :: names) = .ok target → w.exprs values = .ok docs →
      LineDoc w (.assignEach (name :: name' :: names) values)
        (.concat [target, .text " = ", Doc.joined (.text ", ") docs])

theorem statement_ok {s : Stmt} (hn : s.Named) {doc : Doc} (h : w.statement s = .ok doc) :
    LineDoc w s doc := by
  match s with
  | .result value =>
    rcases step_or_ne value with ⟨name, op, rfl⟩ | hother
    · obtain ⟨text, htext, h⟩ := bind_eq_ok.mp h
      cases h
      obtain rfl := target_ok htext
      exact .stepped
    · rw [statement_result hother] at h
      obtain ⟨r, hr, h⟩ := bind_eq_ok.mp h
      cases h
      exact .result hother hr
  | .assign name value =>
    obtain ⟨text, htext, h⟩ := bind_eq_ok.mp h
    obtain ⟨r, hr, h⟩ := bind_eq_ok.mp h
    cases h
    obtain rfl := target_ok htext
    exact .assign hr
  | .unpack names value =>
    obtain ⟨target, htarget, h⟩ := bind_eq_ok.mp h
    obtain ⟨r, hr, h⟩ := bind_eq_ok.mp h
    cases h
    exact .unpack htarget hr
  | .assignEach names values =>
    -- there are as many values as names, so a single name has a single value
    obtain ⟨hne, -, hlength, -⟩ := hn
    match names, values with
    | [], _ => exact absurd rfl hne
    | [name], [value] =>
      obtain ⟨text, htext, h⟩ := bind_eq_ok.mp h
      obtain ⟨r, hr, h⟩ := bind_eq_ok.mp h
      cases h
      obtain rfl := target_ok htext
      exact .single hr
    | name :: name' :: names, values =>
      rw [statement] at h
      · obtain ⟨docs, hdocs, h⟩ := bind_eq_ok.mp h
        obtain ⟨target, htarget, h⟩ := bind_eq_ok.mp h
        cases h
        exact .assignEach htarget hdocs
      · simp
  | .block _ | .empty | .misplaced _ => cases h

/-- What is written for a statement is its line. -/
theorem statement_spells {s : Stmt} (hn : s.Named) {doc : Doc} (h : w.statement s = .ok doc) :
    Spells doc (w.lineTokens s) := by
  cases statement_ok hn h with
  | @stepped name op =>
    have hname := isWord_variableText (w := w) hn
    have hdoc : (w.variableText name ++ " = " ++ w.variableText name ++ " " ++ stepSign op ++
        " 1").toList = (w.variableText name).toList ++ ' ' :: ("=".toList ++ ' ' ::
          (w.variableText name ++ " " ++ stepSign op ++ " 1").toList) := by
      simp [String.toList_append]
    refine spells_text (hdoc ▸ hname.visible.append _) fun d => ?_
    rw [hdoc]
    exact (hname.lexes d).around (lexes_equals d) (lexes_stepped hn op d)
  | result hother hr =>
    rw [lineTokens_result w hother]
    exact (expr_writes hn hr).anywhere
  | assign hr =>
    exact spells_assign (isWord_variableText hn.1).spells
      (spellsRow_single (expr_writes hn.2 hr).anywhere)
  | unpack htarget hr =>
    exact spells_assign (spells_targets hn.1 hn.2.1 htarget)
      (spellsRow_single (expr_writes hn.2.2 hr).anywhere)
  | @single name _ _ hr =>
    obtain ⟨-, hnames, -, hvalues⟩ := hn
    exact spells_assign (isWord_variableText (hnames name (by simp))).spells
      (spellsRow_single (expr_writes hvalues.1 hr).anywhere)
  | assignEach htarget hdocs =>
    obtain ⟨hne, hnames, -, hvalues⟩ := hn
    have hspell := exprs_spell (fun e he r => expr_writes (namedAll_iff.mp hvalues e he)) hdocs
    rw [lineTokens]
    · exact spells_assign (spells_targets hne hnames htarget)
        fun d => spells_joined (gap_comma_space d) hspell
    · simp

/-- What is written for the last statement are its lines. -/
theorem final_spells {s : Stmt} (hn : s.Named) {docs : List Doc}
    (h : w.finalStatement s = .ok docs) : List.Forall₂ Spells docs (w.finalTokens s) := by
  match s with
  | .result value =>
    obtain ⟨r, hr, h⟩ := bind_eq_ok.mp h
    cases h
    exact .cons (spells_return (expr_writes hn hr).anywhere) .nil
  | .assign name value =>
    obtain ⟨line, hline, h⟩ := bind_eq_ok.mp h
    cases h
    exact .cons (statement_spells hn hline) (.cons (spells_return_variable hn.1) .nil)
  | .unpack names value =>
    obtain ⟨line, hline, h⟩ := bind_eq_ok.mp h
    obtain ⟨target, htarget, h⟩ := bind_eq_ok.mp h
    cases h
    exact .cons (statement_spells hn hline)
      (.cons (spells_return (spells_targets hn.1 hn.2.1 htarget)) .nil)
  | .assignEach names values =>
    obtain ⟨line, hline, h⟩ := bind_eq_ok.mp h
    rw [finalTokens]
    cases hname : names.getLast? with
    | none =>
      rw [hname] at h
      cases h
    | some name =>
      rw [hname] at h
      cases h
      exact .cons (statement_spells hn hline)
        (.cons (spells_return_variable (hn.2.1 name (List.mem_of_getLast? hname))) .nil)
  | .block _ | .empty | .misplaced _ => cases h

/-! ### Functions -/

/-- A line of a function. -/
theorem lexes_line {u : List Char} {ts : List HostToken} (hu : Visible u) (h : Lexes 0 u ts 0)
    (k : Nat) : Lexes 0 ('\n' :: (List.replicate k ' ' ++ u)) (.line k :: ts) 0 := by
  obtain ⟨c, rest, rfl, hspace, hbreak⟩ := hu
  intro v hv
  have hstart : lineStart k (c :: rest ++ v) = [.line k] := by simp [lineStart, hbreak]
  have hindent := tokensFrom_start k (v := c :: rest ++ v) (by simpa using hspace)
  rw [hstart, h v hv] at hindent
  rw [List.cons_append, List.append_assoc, hindent, map_append_map]
  rfl

/-- Lines one after the other. -/
theorem lexes_lines {docs : List Doc} {tss : List (List HostToken)}
    (h : List.Forall₂ Spells docs tss) {indent : Int} {t : List Char}
    (ht : RendersAll (docs.flatMap fun doc => [Doc.hardLine, doc]) indent t) :
    Lexes 0 t (tss.flatMap (.line indent.toNat :: ·)) 0 := by
  induction h generalizing t with
  | nil =>
    obtain rfl : t = [] := ht
    exact lexes_nil 0
  | @cons doc ts docs tss hdoc hdocs ih =>
    obtain ⟨_, _, rfl, ⟨hflat, -⟩ | rfl, u, rest, rfl, hu, hrest⟩ := ht
    · cases hflat
    obtain ⟨hvisible, hlexes⟩ := hdoc indent u hu
    have hline := lexes_line hvisible (hlexes 0) indent.toNat
    have hmore := ih hrest
    rw [List.flatMap_cons, List.cons_append]
    rw [List.cons_append, ← List.append_assoc, ← List.cons_append]
    -- the rest is empty or begins with the line feed of the next line
    cases hdocs with
    | nil =>
      obtain rfl : rest = [] := hrest
      simpa using hline
    | cons =>
      obtain ⟨_, _, rfl, ⟨hflat, -⟩ | rfl, -⟩ := hrest
      · cases hflat
      · exact hline.append_lexes (c := '\n') (by decide) hmore

theorem lexes_header {name : String} (h : IsWord name) :
    Lexes 0 ('\n' :: ("def " ++ name ++ "(x, y, z):").toList)
      (.line 0 :: .name "def" :: .name name :: .mark "(" :: .name "x" :: .mark "," ::
        .name "y" :: .mark "," :: .name "z" :: .mark ")" :: [.mark ":"]) 0 := by
  have hdef : Lexes 0 "def".toList [.name "def"] 0 := (isWord_given "def" (by simp)).lexes 0
  have hname := h.lexes 0
  have hparameters : Lexes 1 "x, y, z".toList
      [.name "x", .mark ",", .name "y", .mark ",", .name "z"] 1 :=
    lexes_words (fun s (hs : s ∈ ["x", "y", "z"]) => isWord_given s (by revert hs; simp; tauto)) 1
  have hcolon : Lexes 0 [':'] [.mark ":"] 0 := lexes_mark (by decide)
  have htext : ("def " ++ name ++ "(x, y, z):").toList =
      "def".toList ++ ' ' :: (name.toList ++ '(' :: ("x, y, z".toList ++ [')'] ++ [':'])) := by
    simp [String.toList_append]
  have htail := (separates_brackets hparameters).append_lexes hcolon
  have hline := hdef.append_lexes (c := ' ') (by decide)
    ((separates_space 0).append_lexes (hname.append_lexes (c := '(') (by decide) htail))
  rw [htext]
  exact lexes_line ((isWord_given "def" (by simp)).visible.append _) hline 0

/-- An angle is bound to a literal. -/
theorem spells_angle {name : String} (h : IsWord name) (value : Float) :
    Spells (.concat [.text (name ++ " = "), (number value).doc])
      (.name name :: .mark "=" :: numberTokens value) := by
  rintro indent t ⟨_, _, rfl, rfl, u, _, rfl, hu, rfl⟩
  have hvalue := (spells_number value indent u hu).2
  rw [String.toList_append, List.append_nil, List.append_assoc]
  exact ⟨h.visible.append _, fun d => (h.lexes d).around (lexes_equals d) (hvalue d)⟩

theorem statements_spell {ss : List Stmt} (hn : ∀ s ∈ ss, s.Named) {docs : List Doc}
    (h : ss.mapM w.statement = .ok docs) : List.Forall₂ Spells docs (ss.map w.lineTokens) := by
  induction ss generalizing docs with
  | nil =>
    cases h
    exact .nil
  | cons s ss ih =>
    rw [List.mapM_cons] at h
    obtain ⟨doc, hdoc, h⟩ := bind_eq_ok.mp h
    obtain ⟨rest, hrest, h⟩ := bind_eq_ok.mp h
    cases h
    exact .cons (statement_spells (hn s (List.mem_cons_self ..)) hdoc)
      (ih (fun x hx => hn x (List.mem_cons_of_mem _ hx)) hrest)

/-- The simple statements of a program that are not empty. -/
def simpleStatements (s : Stmt) : List Stmt :=
  s.flatten.filter fun t => match t with | .empty => false | _ => true

/-- A function has its name if it is an identifier, no keyword and no name that the host needs. -/
theorem checkName_ok : w.checkName = .ok () ↔ Text.isIdentifier w.functionName.toList = true ∧
    w.functionName ∉ keywords ∧ w.functionName ∉ globalNames := by
  simp only [checkName, Bool.or_eq_true, Bool.not_eq_true', List.contains_iff_mem]
  split
  · next h => exact ⟨nofun, fun h' => (h.elim (by simp [h'.1]) h'.2.1).elim⟩
  · next h =>
    obtain ⟨hidentifier, hkeyword⟩ := not_or.mp h
    split
    · next hglobal => exact ⟨nofun, fun h' => absurd hglobal h'.2.2⟩
    · next hglobal => exact ⟨fun _ => ⟨by simpa using hidentifier, hkeyword, hglobal⟩, fun _ => rfl⟩

/-- What a function is written from. -/
theorem document_ok {s : Stmt} {doc : Doc} (h : w.document s = .ok doc) :
    w.checkName = .ok () ∧ ∃ ss last lines final, simpleStatements s = ss ++ [last] ∧
      ss.mapM w.statement = .ok lines ∧ w.finalStatement last = .ok final ∧
      doc = .concat [.text ("def " ++ w.functionName ++ "(x, y, z):"),
        .nest indentation (.concat [Doc.hardLine, Doc.joined Doc.hardLine
          (.concat [.text "a0 = ", (number w.a0).doc] :: .concat [.text "a1 = ", (number w.a1).doc] ::
            (lines ++ final))])] := by
  obtain ⟨⟨⟩, hname, h⟩ := bind_eq_ok.mp h
  dsimp only at h
  -- a program without statements has no function
  split at h
  · cases h
  · next last hlast =>
    have hsimple : (simpleStatements s).dropLast ++ [last] = simpleStatements s :=
      List.dropLast_append_getLast? last hlast
    obtain ⟨lines, hlines, h⟩ := bind_eq_ok.mp h
    obtain ⟨final, hfinal, h⟩ := bind_eq_ok.mp h
    cases h
    exact ⟨hname, _, last, lines, final, hsimple.symm, hlines, hfinal, rfl⟩

/-- The text of a function has the tokens of its lines. -/
theorem lexes_document {s : Stmt} (hn : s.Named) {doc : Doc} (h : w.document s = .ok doc) :
    ∃ ss last, simpleStatements s = ss ++ [last] ∧
      ∀ t, doc.Renders 0 t → Lexes 0 ('\n' :: t) (w.functionTokens ss last) 0 := by
  obtain ⟨hname, ss, last, lines, final, hsimple, hlines, hfinal, rfl⟩ := document_ok h
  have hword := isWord_of_isIdentifier (checkName_ok.mp hname).1
  refine ⟨ss, last, hsimple, ?_⟩
  have hnamed : ∀ t ∈ ss ++ [last], t.Named := by
    intro t ht
    rw [← hsimple] at ht
    exact named_of_mem_flatten hn (List.mem_of_mem_filter ht)
  have hbody := List.Forall₂.cons (spells_angle (isWord_given "a0" (by simp)) w.a0)
    (.cons (spells_angle (isWord_given "a1" (by simp)) w.a1)
      (List.rel_append (statements_spell (fun t ht => hnamed t (List.mem_append_left _ ht)) hlines)
        (final_spells (hnamed last (by simp)) hfinal)))
  rintro t ⟨_, _, rfl, rfl, _, _, rfl, ⟨u, _, rfl, hu, v, _, rfl, hv, rfl⟩, rfl⟩
  have hrows := @lexes_lines _ _ hbody 4 _ ⟨u, v, rfl, hu, hv⟩
  obtain ⟨hflat, -⟩ | rfl := hu
  · cases hflat
  rw [functionTokens, List.append_nil, List.append_nil]
  exact (lexes_header hword).append_lexes (c := '\n') (by decide) hrows

/-- A program has a text in any positive width if it has a document. -/
theorem generate_of_document {width : Int} (hwidth : 0 < width) {functionName : String}
    {a0 a1 : Float} {s : Stmt} {doc : Doc} (h : document ⟨functionName, a0, a1⟩ s = .ok doc) :
    ∃ t, doc.Renders 0 t ∧
      generate { width, a0, a1, functionName } s = .ok (trimLines t ++ ['\n']) := by
  obtain ⟨t, ht, hrender⟩ := render_eq hwidth doc
  refine ⟨t, ht, ?_⟩
  have htarget : Target.ofName "python" = .ok .python := rfl
  simp only [generate, htarget, h, hrender, bind, Except.bind, mapError_ok]
  rfl

/-- And in no other one. -/
theorem generate_ok {width : Int} {functionName : String} {a0 a1 : Float} {s : Stmt}
    {text : List Char} (h : generate { width, a0, a1, functionName } s = .ok text) :
    0 < width ∧ ∃ doc, document ⟨functionName, a0, a1⟩ s = .ok doc := by
  obtain ⟨_, htarget, h⟩ := bind_eq_ok.mp h
  cases htarget
  obtain ⟨doc, hdoc, h⟩ := bind_eq_ok.mp h
  obtain ⟨trimmed, htext, -⟩ := bind_eq_ok.mp h
  have htext : doc.render width = .ok trimmed := mapError_eq_ok.mp htext
  refine ⟨?_, doc, hdoc⟩
  by_contra hle
  rw [Doc.render, if_pos (by omega)] at htext
  cases htext

/-- The text that is generated for a program, in any width, has the tokens of a function. -/
theorem hostTokens_generate {width : Int} {functionName : String} {a0 a1 : Float} {s : Stmt}
    (hn : s.Named) {text : List Char} (h : generate { width, a0, a1, functionName } s = .ok text) :
    ∃ ss last, simpleStatements s = ss ++ [last] ∧
      hostTokens text = some (functionTokens ⟨functionName, a0, a1⟩ ss last) := by
  obtain ⟨hwidth, doc, hdoc⟩ := generate_ok h
  obtain ⟨t, ht, htext⟩ := generate_of_document hwidth hdoc
  obtain rfl : text = trimLines t ++ ['\n'] := Except.ok.inj (h.symm.trans htext)
  obtain ⟨ss, last, hsimple, hlexes⟩ := lexes_document hn hdoc
  refine ⟨ss, last, hsimple, @tokensFrom_trimLines 0 ['\n'] t ['\n'] _ (.inr ⟨[], rfl⟩) ?_⟩
  have hend : Host.tokensFrom 0 ['\n'] = some [] := by
    have hstart := tokensFrom_start 0 (v := []) (by simp)
    rwa [tokensFrom_nil] at hstart
  have htokens := hlexes t ht ['\n'] (endsToken_cons (by decide) [])
  rw [hend] at htokens
  simpa using htokens

end FieldLang.HostWriter
