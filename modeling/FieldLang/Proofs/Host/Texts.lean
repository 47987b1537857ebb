/-
The texts of generated expressions.

* `Spells`, `SpellsRow` : every text of a document, or of documents in a row, has these tokens;
* `Gap` : a document that separates what stands before it from what stands behind it;
* `spells_joined`, `lexes_bracketed` : rows with commas and brackets;
* `expr_writes` : what is written for an expression has its rank and its tokens.

Design notes: lines are broken between brackets only, where a break separates and does nothing else.
So what is written for an expression has the same tokens wherever its lines are broken, and however
many brackets are open before it.
-/
import FieldLang.Proofs.Except
import FieldLang.Proofs.Host.Literals

namespace FieldLang.HostWriter

open Host Layout Writing

/-! ### Documents -/

/-- The text does not begin with a blank. -/
def Visible (t : List Char) : Prop := ∃ c rest, t = c :: rest ∧ c ≠ ' ' ∧ c ≠ '\n'

theorem Visible.append {u : List Char} (h : Visible u) (v : List Char) : Visible (u ++ v) := by
  obtain ⟨c, rest, rfl, hc⟩ := h
  exact ⟨c, rest ++ v, rfl, hc⟩

theorem visible_of_isAlphanum {c : Char} (hc : c.isAlphanum = true) (rest : List Char) :
    Visible (c :: rest) := by
  refine ⟨c, rest, rfl, ?_, ?_⟩ <;> rintro rfl <;> exact absurd hc (by decide)

/-- Every text of the document has these tokens, however many brackets are open before it. -/
def Spells (doc : Doc) (ts : List HostToken) : Prop :=
  ∀ indent t, doc.Renders indent t → Visible t ∧ ∀ d, Lexes d t ts d

/-- The same for documents in a row behind `d` open brackets. -/
def SpellsRow (d : Nat) (docs : List Doc) (ts : List HostToken) : Prop :=
  ∀ indent t, RendersAll docs indent t → Lexes d t ts d

/-- Every text of the document separates what stands on its two sides, and has these tokens. -/
structure Gap (d : Nat) (doc : Doc) (ts : List HostToken) : Prop where
  separates : ∀ indent t, doc.Renders indent t → Separates d t ts d
  first : ∀ indent t, doc.Renders indent t → ∃ c rest, t = c :: rest ∧ c ∈ separators

section Documents

variable {d : Nat} {doc gap : Doc} {docs : List Doc} {ts ms us : List HostToken}

theorem lexes_nil (d : Nat) : Lexes d [] [] d := by
  intro v _
  simp

theorem spells_text {s : String} (hs : Visible s.toList) (h : ∀ d, Lexes d s.toList ts d) :
    Spells (.text s) ts := by
  rintro indent t rfl
  exact ⟨hs, h⟩

theorem spellsRow_single (h : Spells doc ts) (d : Nat) : SpellsRow d [doc] ts := by
  rintro indent t ⟨u, v, rfl, hu, rfl⟩
  rw [List.append_nil]
  exact (h indent u hu).2 d

/-- A row with a gap behind its first document. -/
theorem Gap.between (hgap : Gap d gap ms) (h : Spells doc ts) (hrow : SpellsRow d docs us) :
    SpellsRow d (doc :: gap :: docs) (ts ++ (ms ++ us)) := by
  rintro indent t ⟨u, _, rfl, hu, v, w, rfl, hv, hw⟩
  have hv' := hgap.separates indent v hv
  obtain ⟨c, rest, rfl, hc⟩ := hgap.first indent v hv
  exact ((h indent u hu).2 d).append_lexes hc (hv'.append_lexes (hrow indent w hw))

theorem SpellsRow.concat (hrow : ∀ d, SpellsRow d (doc :: docs) us) (h : Spells doc ts) :
    Spells (.concat (doc :: docs)) us := by
  intro indent t ht
  refine ⟨?_, fun d => hrow d indent t ht⟩
  obtain ⟨u, v, rfl, hu, -⟩ := ht
  exact (h indent u hu).1.append v

/-- A text between spaces. -/
theorem gap_spaced {s : String} (h : Lexes d s.toList ms d) : Gap d (.text (" " ++ s ++ " ")) ms where
  separates := by
    rintro indent t rfl
    simpa [String.toList_append] using h.spaced
  first := by
    rintro indent t rfl
    exact ⟨' ', s.toList ++ [' '], by simp [String.toList_append], by decide⟩

/-- A part in front of one that begins with a separator. -/
theorem lexes_append_ends {d' d'' : Nat} {u v : List Char} (h : Lexes d u ts d')
    (hv : ∃ c rest, v = c :: rest ∧ c ∈ separators) (h' : Separates d' v us d'') :
    Separates d (u ++ v) (ts ++ us) d'' := by
  obtain ⟨c, rest, rfl, hc⟩ := hv
  exact h.append hc h'

/-! ### Brackets -/

theorem separates_lparen (d : Nat) : Separates d ['('] [.mark "("] (d + 1) :=
  separates_mark (by decide)

theorem separates_rparen (d : Nat) : Separates (d + 1) [')'] [.mark ")"] d :=
  separates_mark (by decide)

theorem separates_comma (d : Nat) : Separates d [','] [.mark ","] d := separates_mark (by decide)

/-- A part in round brackets. -/
theorem separates_brackets {u : List Char} (h : Lexes (d + 1) u ts (d + 1)) :
    Separates d ('(' :: (u ++ [')'])) (bracketed ts) d :=
  (separates_lparen d).append (h.append (by decide) (separates_rparen d))

theorem spells_brackets (h : Spells doc ts) :
    Spells (.concat [.text "(", doc, .text ")"]) (bracketed ts) := by
  rintro indent t ⟨_, _, rfl, rfl, u, _, rfl, hu, _, _, rfl, rfl, rfl⟩
  exact ⟨⟨'(', _, rfl, by decide⟩, fun d => (separates_brackets ((h indent u hu).2 (d + 1))).lexes⟩

/-- A written expression in its place. -/
theorem spells_within {r : Ranked} (h : Spells r.doc ts) (least : Nat) :
    Spells (r.within least) (bracketedIf (r.rank < least) ts) := by
  rw [Ranked.within, bracketedIf]
  by_cases hr : r.rank < least
  · rw [if_pos hr, if_pos (by simpa using hr)]
    exact spells_brackets h
  · rw [if_neg hr, if_neg (by simpa using hr)]
    exact h

/-- The separator of items. -/
def comma : Doc := .concat [.text ",", Doc.space]

/-- A line is only broken between brackets. -/
theorem blank_of_renders {s : String} (hs : ∀ c ∈ s.toList, c = ' ') {hard : Bool} {indent : Int}
    {t : List Char} (h : (Doc.line s hard).Renders indent t) : ∀ c ∈ t, c = ' ' ∨ c = '\n' := by
  rcases h with ⟨-, rfl⟩ | rfl
  · exact fun c hc => .inl (hs c hc)
  · intro c hc
    rcases List.mem_cons.mp hc with rfl | hc
    · exact .inr rfl
    · exact .inl (List.eq_of_mem_replicate hc)

theorem gap_comma (hd : d ≠ 0) : Gap d comma [.mark ","] where
  separates := by
    rintro indent t ⟨_, _, rfl, rfl, v, _, rfl, hv, rfl⟩
    rw [List.append_nil]
    exact (separates_comma d).append (separates_blanks hd (blank_of_renders (by decide) hv))
  first := by
    rintro indent t ⟨_, _, rfl, rfl, -⟩
    exact ⟨',', _, rfl, by decide⟩

/-- A comma outside of brackets. -/
theorem gap_comma_space (d : Nat) : Gap d (.text ", ") [.mark ","] where
  separates := by
    rintro indent t rfl
    exact (separates_comma d).append (separates_space d)
  first := by
    rintro indent t rfl
    exact ⟨',', [' '], rfl, by decide⟩

/-- Documents with commas between them have their tokens, with commas between them. -/
theorem spells_joined {tss : List (List HostToken)} (hgap : Gap d gap [.mark ","])
    (h : List.Forall₂ Spells docs tss) : SpellsRow d [Doc.joined gap docs] (commaSeparated tss) := by
  suffices hjoined : ∀ indent t, (Doc.joined gap docs).Renders indent t →
      Lexes d t (commaSeparated tss) d by
    rintro indent t ⟨u, v, rfl, hu, rfl⟩
    rw [List.append_nil]
    exact hjoined indent u hu
  cases h with
  | nil =>
    rintro indent t rfl
    exact lexes_nil d
  | @cons doc ts docs tss hfirst hrest =>
    show SpellsRow d _ _
    rw [commaSeparated]
    -- on the documents behind the first one
    induction hrest generalizing doc ts with
    | nil => simpa using spellsRow_single hfirst d
    | cons hsecond _ ih => exact hgap.between hfirst (ih hsecond)

/-- Items between an opening text and a closing bracket, wherever the lines are broken. -/
theorem lexes_bracketed {opening closing : String} {as bs : List HostToken}
    {tss : List (List HostToken)} {indent : Int}
    (hopening : Separates d opening.toList as (d + 1))
    (hclosing : Separates (d + 1) closing.toList bs d)
    (hfirst : ∃ c rest, closing.toList = c :: rest ∧ c ∈ separators)
    (h : List.Forall₂ Spells docs tss) {indent' : Int} {t : List Char}
    (ht : (Doc.bracketed opening docs closing indent).Renders indent' t) :
    Separates d t (as ++ (commaSeparated tss ++ bs)) d := by
  cases h with
  | nil =>
    obtain rfl : t = (opening ++ closing).toList := ht
    rw [String.toList_append]
    exact hopening.append hclosing
  | @cons doc ts docs tss hdoc hdocs =>
    have hbody := spells_joined (gap_comma (d := d + 1) (by omega)) (.cons hdoc hdocs)
    obtain ⟨_, _, rfl, rfl, _, _, rfl, ⟨soft, _, rfl, hsoft, body⟩, soft', _, rfl, hsoft', _, _, rfl,
      rfl, rfl⟩ := ht
    have hblank := separates_blanks (d := d + 1) (by omega) (blank_of_renders (by decide) hsoft)
    have hblank' := separates_blanks (d := d + 1) (by omega) (blank_of_renders (by decide) hsoft')
    -- the last item ends at a line break or at the bracket
    have hends : ∃ c rest, soft' ++ closing.toList = c :: rest ∧ c ∈ separators := by
      rcases hsoft' with ⟨-, rfl⟩ | rfl
      · exact hfirst
      · exact ⟨'\n', _, rfl, by decide⟩
    have hinner := lexes_append_ends (hbody _ _ body) hends (hblank'.append hclosing)
    simpa using hopening.append (hblank.append hinner)

end Documents

/-! ### Names and operators -/

section Names

variable {w : HostWriter} {name : String}

/-- An identifier. -/
def IsWord (s : String) : Prop :=
  ∃ c rest, s.toList = c :: rest ∧ Text.startsName c = true ∧ ∀ e ∈ rest, Text.continuesName e = true

theorem isWord_of_isIdentifier {s : String} (h : Text.isIdentifier s.toList = true) : IsWord s := by
  cases hs : s.toList with
  | nil =>
    rw [hs] at h
    cases h
  | cons c rest =>
    rw [hs, Text.isIdentifier, Bool.and_eq_true, List.all_eq_true] at h
    exact ⟨c, rest, hs, h.1, h.2⟩

/-- A letter with letters, digits and underscores behind it. -/
theorem isWord_of_letters {s : String} {c : Char} {rest : List Char} (hs : s.toList = c :: rest)
    (hc : c.isAlpha = true) (hrest : ∀ e ∈ rest, e.isAlphanum = true ∨ e = '_') : IsWord s :=
  ⟨c, rest, hs, startsName_of_isAlpha hc, fun e he => continuesName_of_isAlphanum (hrest e he)⟩

theorem IsWord.lexes {s : String} (h : IsWord s) (d : Nat) : Lexes d s.toList [.name s] d := by
  obtain ⟨c, rest, hs, hc, hrest⟩ := h
  have hname : String.ofList (c :: rest) = s := by rw [← hs, String.ofList_toList]
  rw [hs, ← hname]
  exact lexes_word hc hrest

theorem IsWord.visible {s : String} (h : IsWord s) : Visible s.toList := by
  obtain ⟨c, rest, hs, hc, -⟩ := h
  exact ⟨c, rest, hs, (ne_of_startsName hc).symm⟩

theorem IsWord.spells {s : String} (h : IsWord s) : Spells (.text s) [.name s] :=
  spells_text h.visible h.lexes

/-- Words that the writer puts around what it writes. -/
theorem isWord_given : ∀ s ∈ ["nan", "inf", "or", "and", "if", "else", "return", "def", "a0", "a1",
    "x", "y", "z"], IsWord s := by
  have hgiven : ∀ s ∈ ["nan", "inf", "or", "and", "if", "else", "return", "def", "a0", "a1",
      "x", "y", "z"], s.toList.head?.map Char.isAlpha = some true ∧
        ∀ e ∈ s.toList.tail, e.isAlphanum = true ∨ e = '_' := by decide
  intro s hs
  obtain ⟨hfirst, hrest⟩ := hgiven s hs
  obtain ⟨c, hc, halpha⟩ := Option.map_eq_some_iff.mp hfirst
  exact isWord_of_letters (List.cons_head?_tail hc).symm halpha hrest

theorem isWord_function (f : Builtin) : IsWord f.name := by
  cases f <;> exact isWord_of_letters rfl (by decide) (by decide)

/-- A variable is a word, with or without an underscore. -/
theorem isWord_variableText (h : IsName name) : IsWord (w.variableText name) := by
  obtain ⟨c, rest, hname, hc, hrest, -⟩ := isName_iff.mp h
  rw [variableText]
  split
  · have htext : (name ++ "_").toList = c :: (rest ++ ['_']) := by
      rw [String.toList_append, hname]
      rfl
    refine isWord_of_letters htext hc fun e he => ?_
    rcases List.mem_append.mp he with he | he
    · exact .inl (hrest e he)
    · exact .inr (List.mem_singleton.mp he)
  · exact isWord_of_letters hname hc fun e he => .inl (hrest e he)

theorem lexes_operator (op : BinOp) (d : Nat) :
    Lexes d (operator op).1.toList [operatorToken op] d := by
  cases op with
  | or => exact (isWord_given "or" (by simp)).lexes d
  | and => exact (isWord_given "and" (by simp)).lexes d
  | eq => exact lexes_pair (c := '=') (e := '=') (by decide)
  | notEq => exact lexes_pair (c := '!') (e := '=') (by decide)
  | greater => exact lexes_mark (c := '>') (by decide)
  | greaterEq => exact lexes_pair (c := '>') (e := '=') (by decide)
  | less => exact lexes_mark (c := '<') (by decide)
  | lessEq => exact lexes_pair (c := '<') (e := '=') (by decide)
  | add => exact lexes_mark (c := '+') (by decide)
  | sub => exact lexes_mark (c := '-') (by decide)
  | mul => exact lexes_mark (c := '*') (by decide)
  | div => exact lexes_mark (c := '/') (by decide)
  | pow => exact lexes_pair (c := '*') (e := '*') (by decide)

theorem lexes_equals (d : Nat) : Lexes d "=".toList [.mark "="] d :=
  lexes_mark (c := '=') (by decide)

theorem lexes_binds (d : Nat) : Lexes d ":=".toList [.mark ":="] d :=
  lexes_pair (c := ':') (e := '=') (by decide)

/-- A variable after a step. -/
theorem lexes_stepped (h : IsName name) (op : StepOp) (d : Nat) :
    Lexes d (w.variableText name ++ " " ++ stepSign op ++ " 1").toList (w.steppedTokens name op) d := by
  have hone : Lexes d ['1'] [.whole 1] d := lexes_natText d 1
  have hsign : Lexes d (stepSign op).toList [.mark (stepSign op)] d := by
    cases op with
    | increment => exact lexes_mark (c := '+') (by decide)
    | decrement => exact lexes_mark (c := '-') (by decide)
  rw [steppedTokens]
  simpa [String.toList_append] using ((isWord_variableText (w := w) h).lexes d).around hsign hone

/-- A step is a binding in brackets. -/
theorem spells_step (h : IsName name) (op : StepOp) :
    Spells (.text ("(" ++ w.variableText name ++ " := " ++ w.variableText name ++ " " ++ stepSign op ++
      " 1)")) (w.spelled (.step name op)) := by
  have htext : ("(" ++ w.variableText name ++ " := " ++ w.variableText name ++ " " ++ stepSign op ++
      " 1)").toList = '(' :: ((w.variableText name).toList ++ ' ' :: (":=".toList ++ ' ' ::
        (w.variableText name ++ " " ++ stepSign op ++ " 1").toList) ++ [')']) := by
    simp [String.toList_append]
  refine spells_text (htext ▸ ⟨'(', _, rfl, by decide⟩) fun d => ?_
  rw [htext, spelled]
  have hinner := ((isWord_variableText (w := w) h).lexes (d + 1)).around (lexes_binds (d + 1))
    (lexes_stepped (w := w) h op (d + 1))
  exact (separates_brackets hinner).lexes

end Names

/-! ### Expressions -/

section Exprs

variable {w : HostWriter}

/-- A sign in front of a document. -/
theorem spells_minus {doc : Doc} {ts : List HostToken} (h : Spells doc ts) :
    Spells (.concat [.text "-", doc]) (.mark "-" :: ts) := by
  rintro indent t ⟨_, _, rfl, rfl, u, _, rfl, hu, rfl⟩
  rw [List.append_nil]
  have hsign : ∀ d, Separates d ['-'] [.mark "-"] d := fun d => separates_mark (by decide)
  exact ⟨⟨'-', u, rfl, by decide⟩, fun d => (hsign d).append_lexes ((h indent u hu).2 d)⟩

theorem spells_number (value : Float) : Spells (number value).doc (numberTokens value) := by
  have hsigned : ∀ {s : String} {t : HostToken}, (∀ d, Lexes d s.toList [t] d) →
      Spells (.text ("-" ++ s)) [.mark "-", t] := by
    intro s t hs
    have hsign : ∀ d, Separates d ['-'] [.mark "-"] d := fun d => separates_mark (by decide)
    refine spells_text ?_ fun d => ?_
    · rw [String.toList_append]
      exact ⟨'-', s.toList, rfl, by decide⟩
    · rw [String.toList_append]
      exact (hsign d).append_lexes (hs d)
  have hinf := isWord_given "inf" (by simp)
  rw [number, numberTokens]
  -- what is not finite has a name, the rest is a literal
  cases hparts : Decimal.parts value with
  | nan => exact (isWord_given "nan" (by simp)).spells
  | infinite negative =>
    cases negative with
    | false => exact hinf.spells
    | true => exact hsigned hinf.lexes
  | finite negative mag =>
    have hlexes := lexes_decimalText hparts
    cases negative with
    | false =>
      refine spells_text ?_ hlexes
      obtain ⟨c, rest, htext, hc⟩ := decimalText_digit hparts
      rw [htext]
      exact visible_of_isAlphanum (isAlphanum_of_isDigit hc) rest
    | true => exact hsigned hlexes

/-- A call with its arguments. -/
theorem spells_call (f : Builtin) {docs : List Doc} {tss : List (List HostToken)}
    (h : List.Forall₂ Spells docs tss) :
    Spells (Doc.bracketed (f.name ++ "(") docs ")" indentation)
      (.name f.name :: .mark "(" :: (commaSeparated tss ++ [.mark ")"])) := by
  have hopening : ∀ d, Separates d (f.name ++ "(").toList [.name f.name, .mark "("] (d + 1) := by
    intro d
    rw [String.toList_append]
    exact ((isWord_function f).lexes d).append (by decide) (separates_lparen d)
  have hclosing : ∀ d, Separates (d + 1) ")".toList [.mark ")"] d := separates_rparen
  intro indent t ht
  refine ⟨?_, fun d => (lexes_bracketed (hopening d) (hclosing d) ⟨')', [], rfl, by decide⟩ h
    ht).lexes⟩
  have hvisible : Visible (f.name ++ "(").toList := by
    rw [String.toList_append]
    exact (isWord_function f).visible.append _
  cases h with
  | nil =>
    obtain rfl : t = (f.name ++ "(" ++ ")").toList := ht
    rw [String.toList_append]
    exact hvisible.append _
  | cons =>
    obtain ⟨_, _, rfl, rfl, -⟩ := ht
    exact hvisible.append _

/-- A list in square brackets. -/
theorem spells_list {docs : List Doc} {tss : List (List HostToken)}
    (h : List.Forall₂ Spells docs tss) :
    Spells (Doc.bracketed "[" docs "]" indentation) (listed tss) := by
  have hopening : ∀ d, Separates d "[".toList [.mark "["] (d + 1) := fun d =>
    separates_mark (c := '[') (by decide)
  have hclosing : ∀ d, Separates (d + 1) "]".toList [.mark "]"] d := fun d =>
    separates_mark (c := ']') (by decide)
  intro indent t ht
  refine ⟨?_, fun d => (lexes_bracketed (hopening d) (hclosing d) ⟨']', [], rfl, by decide⟩ h
    ht).lexes⟩
  cases h with
  | nil =>
    obtain rfl : t = "[]".toList := ht
    exact ⟨'[', [']'], rfl, by decide⟩
  | cons =>
    obtain ⟨_, _, rfl, rfl, -⟩ := ht
    exact ⟨'[', _, rfl, by decide⟩

theorem spells_extra (f : Builtin) : List.Forall₂ Spells (extraArguments f) (extraTokens f) := by
  cases f with
  | rot0 => exact .cons (isWord_given "a0" (by simp)).spells .nil
  | rot1 => exact .cons (isWord_given "a1" (by simp)).spells .nil
  | _ => exact .nil

/-- What is written for an expression. -/
structure Writes (w : HostWriter) (e : Expr) (r : Ranked) : Prop where
  rank : r.rank = rank e
  spells : Spells r.doc (w.spelled e)

theorem Writes.within {e : Expr} {r : Ranked} (h : Writes w e r) (least : Nat) :
    Spells (r.within least) (bracketedIf (HostWriter.rank e < least) (w.spelled e)) := by
  rw [← h.rank]
  exact spells_within h.spells least

/-- The operands of an operator are written in their places. -/
theorem expr_binary (op : BinOp) (lhs rhs : Expr) : w.expr (.binary op lhs rhs) = (do
    let l ← w.expr lhs
    let r ← w.expr rhs
    return ⟨.concat [l.within (leftRank op), .text (" " ++ (operator op).1 ++ " "),
      r.within (rightRank op)], (operator op).2⟩) := by
  cases op <;> rfl

theorem target_ok {name text : String} (h : w.target name = .ok text) : text = w.variableText name := by
  rw [target] at h
  split at h
  · cases h
  · exact (Except.ok.inj h).symm

theorem exprs_spell {es : List Expr} (h : ∀ e ∈ es, ∀ r, w.expr e = .ok r → Writes w e r)
    {docs : List Doc} (hdocs : w.exprs es = .ok docs) : List.Forall₂ Spells docs (w.spelledAll es) := by
  induction es generalizing docs with
  | nil =>
    cases hdocs
    exact .nil
  | cons e es ih =>
    obtain ⟨r, hr, hdocs⟩ := bind_eq_ok.mp hdocs
    obtain ⟨rest, hrest, hdocs⟩ := bind_eq_ok.mp hdocs
    cases hdocs
    refine .cons ?_ (ih (fun x hx => h x (List.mem_cons_of_mem _ hx)) hrest)
    exact (h e (List.mem_cons_self ..) r hr).spells

/-- What is written for an expression is its rank and its tokens. -/
theorem expr_writes {e : Expr} (hn : e.Named) {r : Ranked} (hr : w.expr e = .ok r) :
    Writes w e r := by
  induction e using Expr.induction generalizing r with
  | number value =>
    cases hr
    exact ⟨rfl, spells_number value⟩
  | name name =>
    cases hr
    exact ⟨rfl, (isWord_variableText hn).spells⟩
  | negate operand ih =>
    obtain ⟨operand', hoperand, h⟩ := bind_eq_ok.mp hr
    cases h
    exact ⟨rfl, spells_minus ((ih hn hoperand).within signRank)⟩
  | binary op lhs rhs ihl ihr =>
    rw [expr_binary] at hr
    obtain ⟨lhs', hlhs, h⟩ := bind_eq_ok.mp hr
    obtain ⟨rhs', hrhs, h⟩ := bind_eq_ok.mp h
    cases h
    have hleft := (ihl hn.1 hlhs).within (leftRank op)
    have hright := (ihr hn.2 hrhs).within (rightRank op)
    refine ⟨rfl, SpellsRow.concat (fun d => ?_) hleft⟩
    rw [spelled]
    exact (gap_spaced (lexes_operator op d)).between hleft (spellsRow_single hright d)
  -- the condition stands between the branches
  | conditional condition ifTrue ifFalse ihc iht ihf =>
    obtain ⟨c, hc, h⟩ := bind_eq_ok.mp hr
    obtain ⟨t, ht, h⟩ := bind_eq_ok.mp h
    obtain ⟨f, hf, h⟩ := bind_eq_ok.mp h
    cases h
    have hcondition := (ihc hn.1 hc).within (conditionalRank + 1)
    have htrue := (iht hn.2.1 ht).within (conditionalRank + 1)
    have hfalse := (ihf hn.2.2 hf).within conditionalRank
    have hif : ∀ d, Gap d (.text " if ") [.name "if"] := fun d =>
      gap_spaced ((isWord_given "if" (by simp)).lexes d)
    have helse : ∀ d, Gap d (.text " else ") [.name "else"] := fun d =>
      gap_spaced ((isWord_given "else" (by simp)).lexes d)
    refine ⟨rfl, SpellsRow.concat (fun d => ?_) htrue⟩
    rw [spelled]
    exact (hif d).between htrue ((helse d).between hcondition (spellsRow_single hfalse d))
  | call f args ih =>
    obtain ⟨docs, hdocs, h⟩ := bind_eq_ok.mp hr
    cases h
    have hargs := exprs_spell (fun e he r => ih e he (namedAll_iff.mp hn e he)) hdocs
    refine ⟨rfl, ?_⟩
    rw [spelled]
    refine spells_call f (List.rel_append ?_ (spells_extra f))
    rw [gathered_eq]
    split
    · exact .cons (spells_list hargs) .nil
    · exact hargs
  | step name op =>
    obtain ⟨text, htext, h⟩ := bind_eq_ok.mp hr
    cases h
    obtain rfl := target_ok htext
    exact ⟨rfl, spells_step hn op⟩
  | misplaced display => exact hn.elim

end Exprs

end FieldLang.HostWriter
