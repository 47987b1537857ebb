/-
Programs that are read are normal.

* `Expr.Read`, `Stmt.Read` : an expression or a statement as the parser builds them: its names are
  names, and no literal has a sign;
* `DerivesProgram.read` : the grammar builds only such programs;
* `Stmt.Read.normal` : they are their own normal form.

Design notes: the names and the literals of a program all come from its lexemes, and a reader
leaves a suffix of the lexemes that it is given.
-/
import FieldLang.Proofs.Decimal.Reading
import FieldLang.Proofs.Writing.RoundTrip

namespace FieldLang

/-- The expression has no misplaced nodes, and no literal in it has a sign. -/
structure Expr.Read (e : Expr) : Prop where
  named : e.Named
  unsigned : ∀ v ∈ e.numbers, Decimal.IsUnsigned v

/-- The names among some lexemes are names, and no literal has a sign. -/
structure LexemesRead (ls : List Lexeme) : Prop where
  name : ∀ name, .variable name ∈ ls → IsName name
  unsigned : ∀ v, .number v ∈ ls → Decimal.IsUnsigned v

theorem LexemesRead.suffix {ls rest : List Lexeme} (h : LexemesRead ls) (hs : rest <:+ ls) :
    LexemesRead rest :=
  ⟨fun name hn => h.name name (hs.mem hn), fun v hv => h.unsigned v (hs.mem hv)⟩

theorem LexemesRead.tail {l : Lexeme} {ls : List Lexeme} (h : LexemesRead (l :: ls)) :
    LexemesRead ls :=
  h.suffix (List.suffix_cons ..)

/-- The lexemes of a text are such lexemes. -/
theorem lexemesRead_of_lexemes {text : List Char} {ls : List Lexeme} (h : lexemes text = some ls) :
    LexemesRead ls := by
  refine ⟨fun name hn => isName_of_mem h hn, fun v hv => ?_⟩
  obtain ⟨literal, rfl⟩ := number_of_mem h hv
  exact Decimal.isUnsigned_readLiteral literal

/-! ### Expressions -/

section Expressions

variable {e lhs rhs c t f : Expr}

theorem Expr.Read.binary {op : BinOp} (hl : lhs.Read) (hr : rhs.Read) : (Expr.binary op lhs rhs).Read := by
  refine ⟨⟨hl.named, hr.named⟩, fun v hv => ?_⟩
  rcases List.mem_append.mp hv with hv | hv
  · exact hl.unsigned v hv
  · exact hr.unsigned v hv

theorem Expr.Read.conditional (hc : c.Read) (ht : t.Read) (hf : f.Read) :
    (Expr.conditional c t f).Read := by
  refine ⟨⟨hc.named, ht.named, hf.named⟩, fun v hv => ?_⟩
  rcases List.mem_append.mp hv with hv | hv
  · exact hc.unsigned v hv
  · rcases List.mem_append.mp hv with hv | hv
    · exact ht.unsigned v hv
    · exact hf.unsigned v hv

theorem Expr.Read.call {g : Builtin} {args : List Expr} (h : ∀ e ∈ args, e.Read) :
    (Expr.call g args).Read := by
  refine ⟨namedAll_iff.mpr fun e he => (h e he).named, fun v hv => ?_⟩
  rw [Expr.numbers, Canonical.numbersAll_eq] at hv
  obtain ⟨e, he, hv⟩ := List.mem_flatMap.mp hv
  exact (h e he).unsigned v hv

end Expressions

/-- What a phrase goes on with is such an expression. -/
def Phrase.Read : Phrase → Prop
  | .operators _ lhs => lhs.Read
  | _ => True

section Suffixes

variable {l : Lexeme} {a b : List Lexeme}

theorem suffix_cons_of_suffix (h : a <:+ b) : a <:+ l :: b := h.trans (List.suffix_cons l b)

theorem suffix_of_cons_suffix (h : l :: a <:+ b) : a <:+ b := (List.suffix_cons l a).trans h

end Suffixes

/-- A phrase ends in what is left of the lexemes. -/
theorem Derives.suffix {p : Phrase} {ls rest : List Lexeme} {es : List Expr}
    (h : Derives p ls es rest) : rest <:+ ls := by
  induction h with
  | expr _ _ ih ih' => exact ih'.trans ih
  | number => exact List.suffix_cons ..
  | step => exact suffix_cons_of_suffix (List.suffix_cons ..)
  | name => exact List.suffix_cons ..
  | call _ ih => exact suffix_cons_of_suffix (suffix_cons_of_suffix ih)
  | parens _ ih => exact suffix_cons_of_suffix (suffix_of_cons_suffix ih)
  | minus _ ih => exact suffix_cons_of_suffix ih
  | plus _ ih => exact suffix_cons_of_suffix ih
  | stop => exact List.suffix_refl _
  | conditional _ _ _ _ ih ih' ih'' => exact suffix_cons_of_suffix ((ih''.trans ih').trans (suffix_of_cons_suffix ih))
  | binary _ _ _ ih ih' => exact suffix_cons_of_suffix (ih'.trans ih)
  | bracketed _ ih => exact suffix_cons_of_suffix ih
  | single _ _ ih => exact ih
  | noArguments => exact List.suffix_cons ..
  | lastArgument _ _ ih => exact suffix_of_cons_suffix ih
  | moreArguments _ _ _ ih ih' => exact ih'.trans (suffix_of_cons_suffix ih)
  | noItems => exact List.suffix_cons ..
  | lastItem _ _ ih => exact suffix_of_cons_suffix ih
  | moreItems _ _ _ ih ih' => exact ih'.trans (suffix_of_cons_suffix ih)

/-- From such lexemes the rules build such expressions. -/
theorem Derives.read {p : Phrase} {ls rest : List Lexeme} {es : List Expr}
    (h : Derives p ls es rest) (hls : LexemesRead ls) (hp : p.Read) : ∀ e ∈ es, e.Read := by
  -- only literals and names look at the lexemes; the other rules pass on what they leave
  induction h with
  | expr hfirst _ ih ih' =>
    exact ih' (hls.suffix hfirst.suffix) (ih hls trivial _ (List.mem_singleton.mpr rfl))
  | @number value ls =>
    intro e he
    cases List.mem_singleton.mp he
    refine ⟨trivial, fun v hv => ?_⟩
    cases List.mem_singleton.mp hv
    exact hls.unsigned value (List.mem_cons_self ..)
  | @step name op ls =>
    intro e he
    cases List.mem_singleton.mp he
    exact ⟨hls.name name (List.mem_cons_self ..), fun v hv => by cases hv⟩
  | @name name ls _ =>
    intro e he
    cases List.mem_singleton.mp he
    exact ⟨hls.name name (List.mem_cons_self ..), fun v hv => by cases hv⟩
  | call _ ih =>
    intro e he
    cases List.mem_singleton.mp he
    exact .call (ih hls.tail.tail trivial)
  | parens _ ih => exact ih hls.tail trivial
  | minus _ ih =>
    intro e he
    cases List.mem_singleton.mp he
    obtain ⟨hn, hu⟩ := ih hls.tail trivial _ (List.mem_singleton.mpr rfl)
    exact ⟨hn, hu⟩
  | plus _ ih => exact ih hls.tail trivial
  | stop =>
    intro e he
    cases List.mem_singleton.mp he
    exact hp
  | conditional _ htrue hfalse _ ih ih' ih'' =>
    have hmid := (hls.tail.suffix htrue.suffix).tail
    exact ih'' (hmid.suffix hfalse.suffix) (.conditional hp
      (ih hls.tail trivial _ (List.mem_singleton.mpr rfl))
      (ih' hmid trivial _ (List.mem_singleton.mpr rfl)))
  | binary _ hrhs _ ih ih' =>
    exact ih' (hls.tail.suffix hrhs.suffix) (.binary hp
      (ih hls.tail trivial _ (List.mem_singleton.mpr rfl)))
  | bracketed _ ih => exact ih hls.tail trivial
  | single _ _ ih => exact ih hls trivial
  | noArguments =>
    intro e he
    cases he
  | lastArgument _ _ ih => exact ih hls trivial
  | moreArguments _ hfirst _ ih ih' =>
    intro e he
    rcases List.mem_append.mp he with he | he
    · exact ih hls trivial e he
    · exact ih' ((hls.suffix hfirst.suffix).tail) trivial e he
  | noItems =>
    intro e he
    cases he
  | lastItem _ _ ih => exact ih hls trivial
  | moreItems _ hfirst _ ih ih' =>
    intro e he
    rcases List.mem_cons.mp he with rfl | he
    · exact ih hls trivial _ (List.mem_singleton.mpr rfl)
    · exact ih' ((hls.suffix hfirst.suffix).tail) trivial e he

/-- An expression without signs in its literals is normal. -/
theorem Expr.Read.normal {e : Expr} (h : e.Read) : e.normal = e := by
  obtain ⟨hn, hu⟩ := h
  induction e using Expr.induction with
  | number value =>
    rw [Expr.normal, if_neg (by simp [(hu value (List.mem_singleton.mpr rfl)).signBit])]
  | binary op lhs rhs ihl ihr =>
    rw [Expr.numbers] at hu
    rw [Expr.normal, ihl hn.1 fun v hv => hu v (List.mem_append_left _ hv),
      ihr hn.2 fun v hv => hu v (List.mem_append_right _ hv)]
  | negate operand ih => rw [Expr.normal, ih hn hu]
  | call f args ih =>
    rw [Expr.numbers, Canonical.numbersAll_eq] at hu
    rw [Expr.normal, normalAll_eq_map, List.map_congr_left (g := id), List.map_id]
    intro e he
    exact ih e he (namedAll_iff.mp hn e he) fun v hv => hu v (List.mem_flatMap.mpr ⟨e, he, hv⟩)
  | conditional c t f ihc iht ihf =>
    rw [Expr.numbers] at hu
    rw [Expr.normal, ihc hn.1 fun v hv => hu v (by simp [hv]),
      iht hn.2.1 fun v hv => hu v (by simp [hv]), ihf hn.2.2 fun v hv => hu v (by simp [hv])]
  | _ => rw [Expr.normal]

/-! ### Statements -/

/-- The statement is simple, nothing in it is out of place, and no literal in it has a sign. -/
structure Stmt.Read (s : Stmt) : Prop where
  named : s.Named
  unsigned : ∀ v ∈ s.numbers, Decimal.IsUnsigned v
  simple : s.flatten = [s]

theorem DerivesNames.names {ls rest : List Lexeme} {ns : List String} (h : DerivesNames ls ns rest) :
    rest <:+ ls ∧ ∀ n ∈ ns, .variable n ∈ ls := by
  induction h with
  | none => exact ⟨List.suffix_cons .., by simp⟩
  | @more name ls ns rest _ ih =>
    refine ⟨ih.1.trans ((List.suffix_cons ..).trans (List.suffix_cons ..)), fun n hn => ?_⟩
    rcases List.mem_cons.mp hn with rfl | hn
    · exact List.mem_cons_self ..
    · exact List.mem_cons_of_mem _ (List.mem_cons_of_mem _ (ih.2 n hn))
  | @last name ls =>
    refine ⟨(List.suffix_cons ..).trans (List.suffix_cons ..), fun n hn => ?_⟩
    cases List.mem_singleton.mp hn
    exact List.mem_cons_self ..

theorem isUnsigned_one : Decimal.IsUnsigned 1 := .inr (by decide)

/-- From such lexemes the rules build such statements. -/
theorem DerivesStatement.read {ls rest : List Lexeme} {s : Stmt} (h : DerivesStatement ls s rest)
    (hls : LexemesRead ls) : s.Read := by
  have hsingle : ∀ {p : Phrase} {ls rest : List Lexeme} {e : Expr}, Derives p ls [e] rest →
      LexemesRead ls → p.Read → e.Read :=
    fun hd hls hp => hd.read hls hp _ (List.mem_singleton.mpr rfl)
  cases h with
  | assignEach hnames hne hitems hlength =>
    obtain ⟨hs, hmem⟩ := hnames.names
    have hvalues := hitems.read ((hls.tail.suffix hs).tail.tail) trivial
    refine ⟨⟨hne, fun n hn => hls.tail.name n (hmem n hn), hlength,
      namedAll_iff.mpr fun e he => (hvalues e he).named⟩, fun v hv => ?_, rfl⟩
    rw [Stmt.numbers, Canonical.numbersAll_eq] at hv
    obtain ⟨e, he, hv⟩ := List.mem_flatMap.mp hv
    exact (hvalues e he).unsigned v hv
  | unpack hnames hne _ hvalue =>
    obtain ⟨hs, hmem⟩ := hnames.names
    have hread := hsingle hvalue ((hls.tail.suffix hs).tail) trivial
    exact ⟨⟨hne, fun n hn => hls.tail.name n (hmem n hn), hread.named⟩, hread.unsigned, rfl⟩
  | @assign name op ls value _ hvalue =>
    have hname := hls.name name (List.mem_cons_self ..)
    have hread := hsingle hvalue hls.tail.tail trivial
    -- an assignment through an operator is read as a plain one of what the operator yields
    have hupdated : (updated op name value).Read := by
      rw [updated_eq]
      cases op.operator? with
      | none => exact hread
      | some op' =>
        have hvariable : (Expr.variable name).Read := ⟨hname, fun v hv => by cases hv⟩
        exact .binary hvariable hread
    exact ⟨⟨hname, hupdated.named⟩, hupdated.unsigned, rfl⟩
  | @step name op ls _ =>
    have hname := hls.name name (List.mem_cons_self ..)
    rw [advanced_eq]
    refine ⟨⟨hname, hname, trivial⟩, fun v hv => ?_, rfl⟩
    cases List.mem_singleton.mp hv
    exact isUnsigned_one
  | @stepped name op ls e _ _ hvalue =>
    have hname := hls.name name (List.mem_cons_self ..)
    have hstep : (Expr.step name op).Read := ⟨hname, fun v hv => by cases hv⟩
    have hread := hsingle hvalue hls.tail.tail hstep
    exact ⟨hread.named, hread.unsigned, rfl⟩
  | result _ hvalue =>
    have hread := hsingle hvalue hls trivial
    exact ⟨hread.named, hread.unsigned, rfl⟩

theorem DerivesStatement.suffix {ls rest : List Lexeme} {s : Stmt}
    (h : DerivesStatement ls s rest) : rest <:+ ls := by
  cases h with
  | assignEach hnames _ hitems _ =>
    exact suffix_cons_of_suffix (hitems.suffix.trans (suffix_of_cons_suffix (suffix_of_cons_suffix hnames.names.1)))
  | unpack hnames _ _ hvalue => exact suffix_cons_of_suffix (hvalue.suffix.trans (suffix_of_cons_suffix hnames.names.1))
  | assign hvalue => exact suffix_cons_of_suffix (suffix_cons_of_suffix hvalue.suffix)
  | step => exact suffix_cons_of_suffix (List.suffix_cons ..)
  | stepped _ hvalue => exact suffix_cons_of_suffix (suffix_cons_of_suffix hvalue.suffix)
  | result _ hvalue => exact hvalue.suffix

theorem DerivesProgram.read {ls : List Lexeme} {p : Program} (h : DerivesProgram ls p)
    (hls : LexemesRead ls) : ∀ s ∈ p, s.Read := by
  induction h with
  | done => simp
  | empty _ _ ih =>
    intro s hs
    rcases List.mem_cons.mp hs with rfl | hs
    · exact ⟨trivial, fun v hv => (by cases hv), rfl⟩
    · exact ih (hls.suffix (List.suffix_cons ..)) s hs
  | last _ hd =>
    intro s hs
    cases List.mem_singleton.mp hs
    exact hd.read hls
  | more _ hd _ _ ih =>
    intro s hs
    rcases List.mem_cons.mp hs with rfl | hs
    · exact hd.read hls
    · exact ih (hls.suffix ((List.suffix_cons ..).trans hd.suffix)) s hs

/-- A statement that the parser builds is normal. -/
theorem Stmt.Read.normal {s : Stmt} (h : s.Read) : s.normal = s := by
  obtain ⟨hn, hu, hs⟩ := h
  cases s with
  | assign name value => rw [Stmt.normal, (Expr.Read.mk hn.2 hu).normal]
  | unpack names value => rw [Stmt.normal, (Expr.Read.mk hn.2.2 hu).normal]
  | assignEach names values =>
    rw [Stmt.numbers, Canonical.numbersAll_eq] at hu
    rw [Stmt.normal, normalAll_eq_map, List.map_congr_left (g := id), List.map_id]
    intro e he
    exact (Expr.Read.mk (namedAll_iff.mp hn.2.2.2 e he)
      fun v hv => hu v (List.mem_flatMap.mpr ⟨e, he, hv⟩)).normal
  | result value => rw [Stmt.normal, (Expr.Read.mk hn hu).normal]
  | _ => rfl

/-- The statements of a program that the parser builds are simple. -/
theorem flatten_of_read {p : Program} (h : ∀ s ∈ p, s.Read) : (Stmt.block p).flatten = p := by
  rw [Stmt.flatten]
  induction p with
  | nil => rfl
  | cons s ss ih =>
    rw [flattenAll, (h s (List.mem_cons_self ..)).simple,
      ih fun x hx => h x (List.mem_cons_of_mem _ hx), List.singleton_append]

/-- A program that the parser builds is its own normal form. -/
theorem normalForm_of_read {p : Program} (h : ∀ s ∈ p, s.Read) :
    (Stmt.block p).normalForm = p := by
  rw [Stmt.normalForm, flatten_of_read h, List.map_congr_left (g := id), List.map_id]
  intro s hs
  exact (h s hs).normal

/-! ### Sources -/

theorem outcome_bind_eq_ok {ε α β : Type} {r : Reporting ε α} {f : α → Reporting ε β} {b : β} :
    (r >>= f).outcome = .ok b ↔ ∃ a, r.outcome = .ok a ∧ (f a).outcome = .ok b := by
  obtain ⟨ds, o⟩ := r
  cases o with
  | ok a => simp
  | error e => simp

theorem outcome_bind_eq_error {ε α β : Type} {r : Reporting ε α} {f : α → Reporting ε β} {e : ε} :
    (r >>= f).outcome = .error e ↔
      r.outcome = .error e ∨ ∃ a, r.outcome = .ok a ∧ (f a).outcome = .error e := by
  obtain ⟨ds, o⟩ := r
  cases o with
  | ok a => simp
  | error e' => simp

theorem outcome_mapError_eq_ok {ε ε' α : Type} {r : Reporting ε α} {f : ε → ε'} {a : α} :
    (r.mapError f).outcome = .ok a ↔ r.outcome = .ok a := mapError_eq_ok

/-- A source is read as a program if its lexemes, once loops are unrolled, are. -/
theorem expands_of_parse {policy : Option Policy} {source : List Char} {p : Program}
    (h : (parse policy source).outcome = .ok p) :
    ∃ text ls, (Loops.expand policy source).outcome = .ok text ∧ lexemes text = some ls ∧
      DerivesProgram ls p := by
  rw [parse, outcome_bind_eq_ok] at h
  obtain ⟨text, hexpand, h⟩ := h
  obtain ⟨ts, hts, h⟩ := outcome_bind_eq_ok.mp h
  have hts : tokens text = .ok ts := outcome_mapError_eq_ok.mp hts
  have h := outcome_mapError_eq_ok.mp h
  rw [parseTokens, outcome_bind_eq_ok] at h
  obtain ⟨p', hp, h⟩ := h
  have hp : program text.length ts = .ok p' := hp
  have heq : p' = p := by
    by_cases he : endsInResult p' = true
    · simpa [he] using h
    · simp only [he] at h
      obtain ⟨_, -, h⟩ := outcome_bind_eq_ok.mp h
      simpa using h
  refine ⟨text, lexemesOf ts, outcome_mapError_eq_ok.mp hexpand, ?_, heq ▸ program_derives hp⟩
  rw [lexemes, hts]
  rfl

theorem derives_of_parse {policy : Option Policy} {source : List Char} {p : Program}
    (h : (parse policy source).outcome = .ok p) :
    ∃ text ls, lexemes text = some ls ∧ DerivesProgram ls p := by
  obtain ⟨text, ls, -, hl, hp⟩ := expands_of_parse h
  exact ⟨text, ls, hl, hp⟩

/-- What is read from a source consists of simple statements without signs in their literals. -/
theorem read_of_parse {policy : Option Policy} {source : List Char} {p : Program}
    (h : (parse policy source).outcome = .ok p) : ∀ s ∈ p, s.Read := by
  obtain ⟨text, ls, hl, hp⟩ := derives_of_parse h
  exact hp.read (lexemesRead_of_lexemes hl)

theorem named_of_parse {policy : Option Policy} {source : List Char} {p : Program}
    (h : (parse policy source).outcome = .ok p) : (Stmt.block p).Named :=
  statementsNamed_iff.mpr fun s hs => (read_of_parse h s hs).named

end FieldLang
