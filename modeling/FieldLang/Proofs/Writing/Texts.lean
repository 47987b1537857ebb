/-
What the canonical text of a program is read as.

* `Expr.numbers` : the literals of an expression, in order;
* `Writes`, `writes_binary`, `writes_negate`, `writes_conditional` : what a node is written as, given
  what its operands are;
* `expr_writes` : every text of a written expression has the lexemes that it is spelled with.
-/
import FieldLang.Proofs.Writing.Gaps
import FieldLang.Proofs.Writing.Literals
import FieldLang.Proofs.Writing.Sentences

namespace FieldLang

mutual

/-- The literals of an expression, in the order in which they are written. -/
def Expr.numbers : Expr → List Float
  | .number value => [value]
  | .variable _ | .step _ _ | .misplaced _ => []
  | .binary _ lhs rhs => lhs.numbers ++ rhs.numbers
  | .negate operand => operand.numbers
  | .call _ args => numbersAll args
  | .conditional condition ifTrue ifFalse =>
    condition.numbers ++ (ifTrue.numbers ++ ifFalse.numbers)

/-- The literals of expressions in a row. -/
def numbersAll : List Expr → List Float
  | [] => []
  | e :: es => e.numbers ++ numbersAll es

end

namespace Canonical

open Layout Loops Writing

/-! ### Fixed texts -/

theorem lexemes_spaced (c : Char) (rest : List Char) {l : Lexeme} {n : Nat}
    (hc : ¬Text.isBlank c = true) (h : scan c rest = .ok (l, n)) (hd : rest.drop n = [' ']) :
    lexemes (' ' :: c :: rest) = some [l] := by
  rw [lexemes_blank (by decide), lexemes_token hc h, hd, lexemes_blank (by decide), lexemes_nil]
  rfl

theorem lexemes_alone {c : Char} {l : Lexeme} (hc : ¬Text.isBlank c = true)
    (h : scan c [] = .ok (l, 0)) : lexemes [c] = some [l] := by
  rw [lexemes_token hc h, List.drop_nil, lexemes_nil]
  rfl

theorem lexemes_operator (op : BinOp) :
    lexemes (' ' :: (op.spelling.toList ++ [' '])) = some [.operator op] := by
  cases op with
  | add => exact lexemes_spaced '+' [' '] (by decide) rfl rfl
  | sub => exact lexemes_spaced '-' [' '] (by decide) rfl rfl
  | mul => exact lexemes_spaced '*' [' '] (by decide) rfl rfl
  | div => exact lexemes_spaced '/' [' '] (by decide) rfl rfl
  | eq => exact lexemes_spaced '=' ['=', ' '] (by decide) rfl rfl
  | notEq => exact lexemes_spaced '!' ['=', ' '] (by decide) rfl rfl
  | greater => exact lexemes_spaced '>' [' '] (by decide) rfl rfl
  | greaterEq => exact lexemes_spaced '>' ['=', ' '] (by decide) rfl rfl
  | less => exact lexemes_spaced '<' [' '] (by decide) rfl rfl
  | lessEq => exact lexemes_spaced '<' ['=', ' '] (by decide) rfl rfl
  | and => exact lexemes_spaced '&' ['&', ' '] (by decide) rfl rfl
  | or => exact lexemes_spaced '|' ['|', ' '] (by decide) rfl rfl
  | pow => exact lexemes_spaced '*' ['*', ' '] (by decide) rfl rfl

/-- An operator between spaces. -/
theorem gap_operator (op : BinOp) : Gap (.text (" " ++ op.spelling ++ " ")) [.operator op] := by
  have ht : (" " ++ op.spelling ++ " ").toList = ' ' :: (op.spelling.toList ++ [' ']) := by
    simp [String.toList_append]
  have hi : Inert (' ' :: (op.spelling.toList ++ [' '])) := by
    cases op <;> exact .of_not_mem (by decide) (by decide)
  exact gap_text (ht ▸ lexemes_operator op) (ht ▸ hi) ht (by decide)
    (show _ = (' ' :: op.spelling.toList) ++ [' '] from ht) (by decide)

/-- A sign is apart from a digit or a letter behind it. -/
theorem apart_of_isAlphanum {u v : List Char} {c d : Char} (hc : c.isAlphanum = false)
    (hn : isNumberChar c = false) (hd : d.isAlphanum = true) : Apart (u ++ [c]) (d :: v) := by
  intro a ha b hb
  rw [List.getLast?_concat] at ha
  cases ha
  cases hb
  rintro (hp | ⟨hc', -⟩ | ⟨hc', -⟩)
  · have hd' := pairLexeme?_right hp
    simp only [List.mem_cons, List.not_mem_nil, or_false] at hd'
    rcases hd' with rfl | rfl | rfl | rfl | rfl | rfl <;> revert hd <;> decide
  · rw [hn] at hc'
    cases hc'
  · rw [hc] at hc'
    cases hc'

/-- A name is apart from a mark behind it. -/
theorem apart_of_name {u v : List Char} {c d : Char} (hc : c.isAlphanum = true)
    (hd : d.isAlphanum = false) (hn : isNumberChar d = false) : Apart (u ++ [c]) (d :: v) := by
  intro a ha b hb
  rw [List.getLast?_concat] at ha
  cases ha
  cases hb
  rintro (hp | ⟨-, hd'⟩ | ⟨-, hd'⟩)
  · exact hp (pairLexeme?_of_isAlphanum hc)
  · rw [hn] at hd'
    cases hd'
  · rw [hd] at hd'
    cases hd'

/-! ### Names -/

/-- The text of a name consists of letters and digits. -/
theorem isAlphanum_of_isName {name : String} (h : IsName name) :
    ∀ c ∈ name.toList, c.isAlphanum = true := by
  obtain ⟨c, rest, hname, hc, hrest, -⟩ := isName_iff.mp h
  rw [hname]
  intro d hd
  rcases List.mem_cons.mp hd with rfl | hd
  · exact isAlphanum_of_isAlpha hc
  · exact hrest d hd

theorem inert_of_isAlphanum {t : List Char} (h : ∀ c ∈ t, c.isAlphanum = true) : Inert t := by
  refine .of_not_mem (fun hm => ?_) (fun hm => ?_)
  · exact absurd (h _ hm) (by decide)
  · exact absurd (h _ hm) (by decide)

theorem spells_name {name : String} (h : IsName name) : Spells (.text name) [.variable name] :=
  spells_text h (inert_of_isAlphanum (isAlphanum_of_isName h))

/-- A step is a name and a mark that does not belong to it. -/
theorem spells_step {name : String} (h : IsName name) (op : StepOp) :
    Spells (.text (name ++ op.spelling)) [.variable name, .step op] := by
  have hall := isAlphanum_of_isName h
  obtain ⟨c, rest, hname, -⟩ := isName_iff.mp h
  have hlast : name.toList = name.toList.dropLast ++ [name.toList.getLast (by simp [hname])] :=
    (List.dropLast_concat_getLast _).symm
  have hstep : lexemes op.spelling.toList = some [.step op] := by
    cases op with
    | increment =>
      show lexemes ['+', '+'] = _
      rw [lexemes_token (by decide) (show scan '+' ['+'] = .ok (.step .increment, 1) from rfl)]
      simp
    | decrement =>
      show lexemes ['-', '-'] = _
      rw [lexemes_token (by decide) (show scan '-' ['-'] = .ok (.step .decrement, 1) from rfl)]
      simp
  have hi : Inert op.spelling.toList := by
    cases op <;> exact .of_not_mem (by decide) (by decide)
  -- the name ends in a letter or a digit, to which the mark does not belong
  have happart : Apart name.toList op.spelling.toList := by
    rw [hlast]
    have hc := hall _ (List.getLast_mem (by simp [hname]))
    cases op with
    | increment => exact apart_of_name hc (by decide) (by decide)
    | decrement => exact apart_of_name hc (by decide) (by decide)
  refine spells_text ?_ ?_
  · rw [String.toList_append]
    exact lexemes_append_some happart h hstep
  · rw [String.toList_append]
    exact (inert_of_isAlphanum hall).append hi

/-! ### Brackets and calls -/

theorem gap_lparen : Gap (.text "(") [.lparen] :=
  gap_text (lexemes_alone (by decide) rfl) (.of_not_mem (by decide) (by decide))
    (show _ = '(' :: [] from rfl) (by decide) (show _ = [] ++ ['('] from rfl) (by decide)

theorem gap_rparen : Gap (.text ")") [.rparen] :=
  gap_text (lexemes_alone (by decide) rfl) (.of_not_mem (by decide) (by decide))
    (show _ = ')' :: [] from rfl) (by decide) (show _ = [] ++ [')'] from rfl) (by decide)

theorem gap_rbracket : Gap (.text "]") [.rbracket] :=
  gap_text (lexemes_alone (by decide) rfl) (.of_not_mem (by decide) (by decide))
    (show _ = ']' :: [] from rfl) (by decide) (show _ = [] ++ [']'] from rfl) (by decide)

theorem gap_question : Gap (.text " ? ") [.question] :=
  gap_text (lexemes_spaced '?' [' '] (by decide) rfl rfl) (.of_not_mem (by decide) (by decide))
    (show _ = ' ' :: ['?', ' '] from rfl) (by decide) (show _ = [' ', '?'] ++ [' '] from rfl)
    (by decide)

theorem gap_colon : Gap (.text " : ") [.colon] :=
  gap_text (lexemes_spaced ':' [' '] (by decide) rfl rfl) (.of_not_mem (by decide) (by decide))
    (show _ = ' ' :: [':', ' '] from rfl) (by decide) (show _ = [' ', ':'] ++ [' '] from rfl)
    (by decide)

theorem gap_assign : Gap (.text " = ") [.assign .plain] :=
  gap_text (lexemes_spaced '=' [' '] (by decide) rfl rfl) (.of_not_mem (by decide) (by decide))
    (show _ = ' ' :: ['=', ' '] from rfl) (by decide) (show _ = [' ', '='] ++ [' '] from rfl)
    (by decide)

/-- A document in round brackets. -/
theorem spells_brackets {doc : Doc} {ls : List Lexeme} (h : Spells doc ls) :
    Spells (.concat [.text "(", doc, .text ")"]) (.lparen :: (ls ++ [.rparen])) :=
  gap_lparen.cons (gap_rparen.between h spellsRow_nil)

/-- A written expression in its place. -/
theorem spells_within {r : Ranked} {ls : List Lexeme} (h : Spells r.doc ls) (least : Nat) :
    Spells (r.within least) (bracketedIf (r.rank < least) ls) := by
  rw [Ranked.within, bracketedIf]
  by_cases hr : r.rank < least
  · rw [if_pos hr, if_pos (by simpa using hr)]
    exact spells_brackets h
  · rw [if_neg hr, if_neg (by simpa using hr)]
    exact h

theorem mnemonic_shape (f : Builtin) : ∃ c rest, f.mnemonic.toList = c :: rest ∧
    c.isAlpha = true ∧ ∀ d ∈ rest, d.isAlphanum = true := by
  cases f <;> exact ⟨_, _, rfl, by decide, by decide⟩

/-- The name of a function with the bracket behind it. -/
theorem lexemes_mnemonic (f : Builtin) :
    lexemes (f.mnemonic ++ "(").toList = some [.function f, .lparen] := by
  obtain ⟨c, rest, hf, hc, hrest⟩ := mnemonic_shape f
  have hb : ¬Text.isBlank c = true := by
    intro hb
    have := isAlphanum_of_isAlpha hc
    rw [isAlphanum_of_isBlank hb] at this
    cases this
  have hname : lexemes f.mnemonic.toList = some [.function f] := by
    have hs := scan_name rest hc
    rw [List.takeWhile_eq_self_iff.mpr hrest, ← hf, String.ofList_toList, nameLexeme,
      Builtin.ofMnemonic?_mnemonic] at hs
    rw [hf, lexemes_token hb hs, List.drop_length, lexemes_nil]
    rfl
  rw [String.toList_append]
  exact lexemes_append_some (apart_separator (by decide)) hname (lexemes_alone (by decide) rfl)

theorem inert_mnemonic (f : Builtin) : Inert (f.mnemonic ++ "(").toList := by
  obtain ⟨c, rest, hf, hc, hrest⟩ := mnemonic_shape f
  rw [String.toList_append]
  refine (inert_of_isAlphanum ?_).append (.of_not_mem (by decide) (by decide))
  rw [hf]
  intro d hd
  rcases List.mem_cons.mp hd with rfl | hd
  · exact isAlphanum_of_isAlpha hc
  · exact hrest d hd

/-- A call with its arguments. -/
theorem spells_call (f : Builtin) {docs : List Doc} {lss : List (List Lexeme)}
    (h : List.Forall₂ Spells docs lss) :
    Spells (Doc.bracketed (f.mnemonic ++ "(") docs ")" indentation)
      (.function f :: .lparen :: (commaSeparated lss ++ [.rparen])) :=
  spells_bracketed (lexemes_mnemonic f) (inert_mnemonic f)
    (show _ = f.mnemonic.toList ++ ['('] from String.toList_append ..) (by decide) gap_rparen h

/-- A list in square brackets. -/
theorem spells_list {docs : List Doc} {lss : List (List Lexeme)}
    (h : List.Forall₂ Spells docs lss) :
    Spells (Doc.bracketed "[" docs "]" indentation)
      (.lbracket :: (commaSeparated lss ++ [.rbracket])) := by
  have hopening : lexemes "[".toList = some [.lbracket] := lexemes_alone (by decide) rfl
  have hi : Inert "[".toList := .of_not_mem (by decide) (by decide)
  exact spells_bracketed hopening hi (show _ = [] ++ ['['] from rfl) (by decide) gap_rbracket h

/-! ### Expressions -/

/-- Every text of the document begins with a letter or a digit. -/
def BeginsWord (doc : Doc) : Prop :=
  ∀ indent t, doc.Renders indent t → ∃ c rest, t = c :: rest ∧ c.isAlphanum = true

/-- What is written for an expression. -/
structure Writes (e : Expr) (r : Ranked) : Prop where
  rank : r.rank = rank e
  spells : Spells r.doc (spelled e)
  -- an expression behind a sign needs no brackets if it is a word
  word : signPower ≤ Canonical.rank e → startsWithMinus e = false → BeginsWord r.doc

theorem number_writes {value : Float} (h : Decimal.isFinite value = true) :
    ∃ r, number value = .ok r ∧ Writes (.number value) r := by
  have hliteral := literal_decimalText h
  rw [Decimal.magnitude] at hliteral
  obtain ⟨d, rest, htext, hd⟩ := hliteral.digit
  have hd' := isAlphanum_of_isDigit hd
  rw [number, if_neg (by simp [h])]
  -- the sign of a literal is a lexeme of its own
  by_cases hs : Decimal.signBit value = true
  · rw [if_pos hs] at hliteral
    rw [if_pos hs]
    refine ⟨_, rfl, ?_, ?_, ?_⟩
    · exact (if_pos hs).symm
    · rw [spelled, if_pos hs]
      refine spells_text ?_ ?_
      · rw [String.toList_append]
        have hsign : lexemes "-".toList = some [.operator .sub] := lexemes_alone (by decide) rfl
        refine lexemes_append_some ?_ hsign hliteral.lexemes
        rw [htext]
        exact apart_of_isAlphanum (u := []) (by decide) (by decide) hd'
      · rw [String.toList_append]
        exact Inert.append (.of_not_mem (by decide) (by decide)) hliteral.inert
    · intro _ hminus
      rw [show startsWithMinus (.number value) = true from hs] at hminus
      cases hminus
  · rw [if_neg hs] at hliteral
    rw [if_neg hs]
    refine ⟨_, rfl, ?_, ?_, ?_⟩
    · exact (if_neg hs).symm
    · rw [spelled, if_neg hs]
      exact spells_text hliteral.lexemes hliteral.inert
    · rintro - - indent t rfl
      exact ⟨d, rest, htext, hd'⟩

theorem numbersAll_eq (es : List Expr) : numbersAll es = es.flatMap Expr.numbers := by
  induction es with
  | nil => rfl
  | cons e es ih => rw [numbersAll, ih, List.flatMap_cons]

/-- Expressions in a row are written if each of them is. -/
theorem exprs_writes {es : List Expr} (h : ∀ e ∈ es, ∃ r, expr e = .ok r ∧ Writes e r) :
    ∃ docs, exprs es = .ok docs ∧ List.Forall₂ Spells docs (es.map spelled) := by
  induction es with
  | nil => exact ⟨[], rfl, .nil⟩
  | cons e es ih =>
    obtain ⟨r, hr, hw⟩ := h e (List.mem_cons_self ..)
    obtain ⟨docs, hdocs, hspells⟩ := ih fun x hx => h x (List.mem_cons_of_mem _ hx)
    refine ⟨r.doc :: docs, ?_, .cons hw.spells hspells⟩
    rw [exprs, hr, hdocs]
    rfl

/-- A call begins with the name of its function. -/
theorem beginsWord_call (f : Builtin) (docs : List Doc) :
    BeginsWord (Doc.bracketed (f.mnemonic ++ "(") docs ")" indentation) := by
  obtain ⟨c, rest, hf, hc, -⟩ := mnemonic_shape f
  have ht : (f.mnemonic ++ "(").toList = c :: (rest ++ ['(']) := by
    rw [String.toList_append, hf]
    rfl
  cases docs with
  | nil =>
    rintro indent t rfl
    rw [String.toList_append, ht]
    exact ⟨c, _, rfl, isAlphanum_of_isAlpha hc⟩
  | cons doc docs =>
    rintro indent t ⟨_, _, rfl, rfl, -⟩
    rw [ht]
    exact ⟨c, _, rfl, isAlphanum_of_isAlpha hc⟩

/-- Every text of the document begins with a character that is apart from a sign. -/
def BeginsApart (doc : Doc) : Prop :=
  ∀ indent t, doc.Renders indent t →
    ∃ c rest, t = c :: rest ∧ (isSeparator c = true ∨ c.isAlphanum = true)

theorem begins_brackets {doc : Doc} : BeginsApart (.concat [.text "(", doc, .text ")"]) := by
  rintro indent t ⟨_, _, rfl, rfl, -⟩
  exact ⟨'(', _, rfl, .inl (by decide)⟩

/-- A minus in front of a document that begins apart from it. -/
theorem spells_minus {doc : Doc} {ls : List Lexeme} (h : Spells doc ls) (hb : BeginsApart doc) :
    Spells (.concat [.text "-", doc]) (.operator .sub :: ls) := by
  rintro indent t ⟨_, _, rfl, rfl, u, _, rfl, hu, rfl⟩
  obtain ⟨hl, hi⟩ := h indent u hu
  obtain ⟨c, rest, rfl, hc⟩ := hb indent u hu
  have hsign : lexemes "-".toList = some [.operator .sub] := lexemes_alone (by decide) rfl
  have hsign' : Inert "-".toList := .of_not_mem (by decide) (by decide)
  have happart : Apart "-".toList (c :: rest) := by
    rcases hc with hc | hc
    · exact apart_separator hc
    · exact apart_of_isAlphanum (u := []) (by decide) (by decide) hc
  rw [List.append_nil]
  exact ⟨lexemes_append_some happart hsign hl, hsign'.append hi⟩

/-! ### What each node is written as -/

section Nodes

variable {e lhs rhs operand c t f : Expr} {r l r' c' t' f' : Ranked}

/-- An expression in its place. -/
theorem Writes.within (h : Writes e r) (least : Nat) :
    Spells (r.within least) (bracketedIf (Canonical.rank e < least) (spelled e)) := by
  have hspells := spells_within h.spells least
  rwa [h.rank] at hspells

theorem writes_binary (op : BinOp) (hl : Writes lhs l) (hr : Writes rhs r) :
    Writes (.binary op lhs rhs) ⟨.concat [l.within op.leftPower,
      .text (" " ++ op.spelling ++ " "), r.within op.rightPower], op.precedence⟩ where
  rank := rfl
  spells := by
    rw [spelled]
    exact (gap_operator op).between (hl.within _) (spellsRow_single (hr.within _))
  word hk := by
    have hlt : op.precedence < signPower := by cases op <;> decide
    exact absurd hk (Nat.not_le_of_lt hlt)

theorem writes_negate (h : Writes operand r) :
    Writes (.negate operand) ⟨.concat [.text "-", if startsWithMinus operand then
      .concat [.text "(", r.within signPower, .text ")"] else r.within signPower], signPower⟩ where
  rank := rfl
  spells := by
    have hinner := h.within signPower
    rw [spelled]
    by_cases hs : startsWithMinus operand = true
    · rw [bracketedIf, if_pos hs, if_pos hs]
      exact spells_minus (spells_brackets hinner) begins_brackets
    · rw [bracketedIf, if_neg hs, if_neg hs]
      refine spells_minus hinner ?_
      -- the operand stands in brackets, or it is a word
      rw [Ranked.within]
      by_cases hk : r.rank < signPower
      · rw [if_pos hk]
        exact begins_brackets
      · rw [if_neg hk]
        rw [h.rank] at hk
        intro indent t ht
        obtain ⟨c, rest, rfl, hc⟩ := h.word (by omega) (by simpa using hs) indent t ht
        exact ⟨c, rest, rfl, .inr hc⟩
  word _ hm := by cases hm

theorem writes_conditional (hc : Writes c c') (ht : Writes t t') (hf : Writes f f') :
    Writes (.conditional c t f) ⟨.concat [c'.within (conditionalRank + 1), .text " ? ",
      t'.within 0, .text " : ", f'.within conditionalRank], conditionalRank⟩ where
  rank := rfl
  spells := by
    have htrue := spells_within ht.spells 0
    rw [spelled]
    exact gap_question.between (hc.within _) (gap_colon.between htrue (spellsRow_single (hf.within _)))
  word hk := absurd hk (show ¬signPower ≤ conditionalRank by decide)

end Nodes

/-- Every expression without misplaced nodes, whose literals are finite, is written. -/
theorem expr_writes {e : Expr} (hn : e.Named) (hf : ∀ v ∈ e.numbers, Decimal.isFinite v = true) :
    ∃ r, expr e = .ok r ∧ Writes e r := by
  induction e using Expr.induction with
  | number value =>
    rw [expr]
    exact number_writes (hf value (by simp [Expr.numbers]))
  | name name =>
    rw [expr]
    refine ⟨_, rfl, rfl, spells_name hn, ?_⟩
    rintro - - indent t rfl
    obtain ⟨c, rest, hname, hc, -⟩ := isName_iff.mp hn
    exact ⟨c, rest, hname, isAlphanum_of_isAlpha hc⟩
  | binary op lhs rhs ihl ihr =>
    rw [Expr.numbers] at hf
    obtain ⟨l, hl, hlw⟩ := ihl hn.1 fun v hv => hf v (List.mem_append_left _ hv)
    obtain ⟨r, hr, hrw⟩ := ihr hn.2 fun v hv => hf v (List.mem_append_right _ hv)
    refine ⟨_, ?_, writes_binary op hlw hrw⟩
    rw [expr, hl, hr, ← left_eq, ← right_eq]
    rfl
  | negate operand ih =>
    obtain ⟨r, hr, hrw⟩ := ih hn hf
    rw [expr, hr]
    exact ⟨_, rfl, writes_negate hrw⟩
  | call f args ih =>
    rw [Expr.numbers, numbersAll_eq] at hf
    obtain ⟨docs, hdocs, hspells⟩ := exprs_writes fun e he =>
      ih e he (namedAll_iff.mp hn e he) fun v hv => hf v (List.mem_flatMap.mpr ⟨e, he, hv⟩)
    rw [expr, hdocs]
    refine ⟨_, rfl, rfl, ?_, ?_⟩
    · rw [spelled, spelledAll_eq]
      -- the arguments of a function of any number of them are one list
      by_cases hv : f.variadic = true
      · rw [if_pos hv, if_pos hv]
        simpa [commaSeparated] using spells_call f (.cons (spells_list hspells) .nil)
      · rw [if_neg hv, if_neg hv]
        exact spells_call f hspells
    · exact fun _ _ => beginsWord_call f _
  | conditional c t f ihc iht ihf =>
    rw [Expr.numbers] at hf
    obtain ⟨c', hc, hcw⟩ := ihc hn.1 fun v hv => hf v (by simp [hv])
    obtain ⟨t', ht, htw⟩ := iht hn.2.1 fun v hv => hf v (by simp [hv])
    obtain ⟨f', hf', hfw⟩ := ihf hn.2.2 fun v hv => hf v (by simp [hv])
    rw [expr, hc, ht, hf']
    exact ⟨_, rfl, writes_conditional hcw htw hfw⟩
  | step name op =>
    rw [expr]
    refine ⟨_, rfl, rfl, spells_step hn op, ?_⟩
    rintro - - indent t rfl
    obtain ⟨c, rest, hname, hc, -⟩ := isName_iff.mp hn
    refine ⟨c, rest ++ op.spelling.toList, ?_, isAlphanum_of_isAlpha hc⟩
    rw [String.toList_append, hname]
    rfl
  | misplaced display => exact hn.elim

end Canonical

end FieldLang