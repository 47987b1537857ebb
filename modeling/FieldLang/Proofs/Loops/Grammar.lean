/-
The grammar of source texts with loops.

* `IsSpec`, `Balanced`, `IsRow`, `IsText` : the grammar;
* `Tidy`, `WrittenAs` : fragments that only one reading has, and the texts that they are written as;
* `read_row`, `sound_of_read`, `fault_of_read` : what the grammar derives is read, what is read is
  derived and can be written back, and what is wrong otherwise;
* `fragments_exact` : the fragments of a source text are those of the grammar.

Design notes: the grammar knows nothing of a depth. It derives a row together with the characters
that stand outside of its loops, and asks of a body that the braces among these are balanced. The
reader counts open braces instead, which is a bound on every prefix of those characters.
-/
import FieldLang.Loops.Tree
import FieldLang.Proofs.Decimal.Digits
import FieldLang.Proofs.Except

namespace FieldLang.Loops

/-! ### The grammar -/

/-- Digits, or letters. -/
def IsSpec (spec : List Char) : Prop :=
  spec ≠ [] ∧ ((∀ c ∈ spec, c.isDigit = true) ∨ ∀ c ∈ spec, c.isAlpha = true)

/-- A spec whose count, if it is one, has not too many digits to be read. -/
def FitsSpec (spec : List Char) : Prop :=
  IsSpec spec ∧ ((∀ c ∈ spec, c.isDigit = true) → spec.length ≤ maxCountDigits)

/-- Behind `depth` open braces, no brace of the text closes more than are open. -/
def Inside (depth : Nat) (t : List Char) : Prop :=
  ∀ p, p <+: t → p.count '}' ≤ depth + p.count '{'

/-- Every brace has its partner. -/
structure Balanced (t : List Char) : Prop where
  inside : Inside 0 t
  settled : t.count '}' = t.count '{'

/-- Characters and loops in a row, together with the characters outside of the loops. The specs
of the loops are of a given kind. -/
inductive IsRow (spec : List Char → Prop) : List Char → List Char → Prop where
  | nil : IsRow spec [] []
  | char {c t outside} : c ≠ '@' → IsRow spec t outside → IsRow spec (c :: t) (c :: outside)
  | loop {s body inner t outside} : spec s → IsRow spec body inner → Balanced inner →
      IsRow spec t outside → IsRow spec ('@' :: (s ++ '{' :: (body ++ '}' :: t))) outside

/-- A source text is a row. -/
def IsText (spec : List Char → Prop) (t : List Char) : Prop := ∃ outside, IsRow spec t outside

/-! ### Fragments and texts -/

/-- Pieces of text are not empty, hold no loop, and do not stand side by side; the letters of a loop
are letters. -/
inductive Tidy : List Fragment → Prop where
  | nil : Tidy []
  | plain {text fs} : text ≠ [] → '@' ∉ text → (∀ more, fs.head? ≠ some (.plain more)) → Tidy fs →
      Tidy (.plain text :: fs)
  | counted {count body offset fs} : Tidy body → Tidy fs → Tidy (.counted count body offset :: fs)
  | lettered {letters body offset fs} : letters ≠ [] → (∀ c ∈ letters, c.isAlpha = true) →
      Tidy body → Tidy fs → Tidy (.lettered letters body offset :: fs)

/-- The specs that the loop of a fragment is written with. A count may have zeros in front. -/
inductive Specifies (body : List Fragment) (offset : Nat) : List Char → Fragment → Prop where
  | counted (zeros count : Nat) : Specifies body offset
      (List.replicate zeros '0' ++ Decimal.natText count) (.counted count body offset)
  | lettered (letters : List Char) : Specifies body offset letters (.lettered letters body offset)

/-- What fragments that begin at an offset are written as: the pieces of text as they are, and for
every loop its spec behind an `@`, at the offset of the loop, and its body in braces. -/
inductive WrittenAs : Nat → List Fragment → List Char → Prop where
  | nil {offset} : WrittenAs offset [] []
  | plain {offset text fs t} : WrittenAs (offset + text.length) fs t →
      WrittenAs offset (.plain text :: fs) (text ++ t)
  | loop {offset spec body b f fs t} : Specifies body offset spec f →
      WrittenAs (offset + spec.length + 2) body b →
      WrittenAs (offset + spec.length + b.length + 3) fs t →
      WrittenAs offset (f :: fs) ('@' :: (spec ++ '{' :: (b ++ '}' :: t)))

/-- A fault in the form of a loop, which has an offset. -/
def LoopFault.IsMalformed : LoopFault → Prop
  | .noBody _ | .noSpec | .unterminated _ | .mixedSpec _ => True
  | .hugeCount _ | .strayEnd | .promoted _ => False

/-- A position at an `@` of a text that begins at an offset. -/
def AtLoop (offset : Nat) (text : List Char) (position : Option Nat) : Prop :=
  ∃ i, position = some (offset + i) ∧ text[i]? = some '@'

/-- Where a fault of a text that begins at an offset lies: at an `@` of the text, unless it is a count
that is too long. -/
def FaultIn (offset : Nat) (text : List Char) (e : LoopError) : Prop :=
  (e.fault.IsMalformed ∧ AtLoop offset text e.position) ∨
    ∃ digits, e = ⟨.hugeCount digits.length, none⟩ ∧ (∀ c ∈ digits, c.isDigit = true) ∧
      maxCountDigits < digits.length ∧ '@' :: (digits ++ ['{']) <:+: text

/-! ### Braces -/

section Braces

variable {depth : Nat} {t : List Char} {c : Char}

/-- The braces that are open behind a character. -/
def depthBehind (depth : Nat) (c : Char) : Nat :=
  if c = '{' then depth + 1 else if c = '}' then depth - 1 else depth

/-- No brace is counted twice, and none is missed where one can be closed. -/
theorem depthBehind_eq (h : ¬(c = '}' ∧ depth = 0)) :
    depthBehind depth c + (if c == '}' then 1 else 0) = depth + (if c == '{' then 1 else 0) := by
  rw [depthBehind]
  by_cases hopen : c = '{'
  · subst hopen
    rfl
  · by_cases hclose : c = '}'
    · subst hclose
      have hpos : depth ≠ 0 := fun h0 => h ⟨rfl, h0⟩
      rw [if_neg hopen, if_pos rfl, if_pos (by decide), if_neg (by decide)]
      omega
    · simp [hopen, hclose]

theorem inside_nil (depth : Nat) : Inside depth [] := by
  intro p hp
  rw [List.prefix_nil.mp hp]
  exact Nat.zero_le _

/-- A text is inside braces if its first character is and the text behind it is. -/
theorem inside_cons : Inside depth (c :: t) ↔
    ¬(c = '}' ∧ depth = 0) ∧ Inside (depthBehind depth c) t := by
  constructor
  · intro h
    have hfirst : ¬(c = '}' ∧ depth = 0) := by
      rintro ⟨rfl, rfl⟩
      exact absurd (h ['}'] (List.cons_prefix_cons.mpr ⟨rfl, List.nil_prefix⟩)) (by decide)
    refine ⟨hfirst, fun p hp => ?_⟩
    have hall := h (c :: p) (List.cons_prefix_cons.mpr ⟨rfl, hp⟩)
    have hdepth := depthBehind_eq hfirst
    rw [List.count_cons, List.count_cons] at hall
    omega
  · rintro ⟨hfirst, h⟩ p hp
    rcases List.prefix_cons_iff.mp hp with rfl | ⟨p, rfl, hp⟩
    · exact Nat.zero_le _
    · have hall := h p (List.cons_prefix_cons.mp hp).2
      have hdepth := depthBehind_eq hfirst
      rw [List.count_cons, List.count_cons]
      omega

end Braces

/-! ### The reader -/

/-- What the reader reads and leaves, without the proof about its length. -/
def readPair (inBody : Bool) (depth offset : Nat) (text : List Char) :
    Except LoopError (List Fragment × List Char) :=
  (read inBody depth offset text).map fun r => (r.fragments, r.rest)

/-- What is read from behind the brace of a loop, its body and whatever follows it. -/
def readLoop (inBody : Bool) (depth offset : Nat) (spec inner : List Char) :
    Except LoopError (List Fragment × List Char) := do
  let body ← readPair true 0 (offset + spec.length + 2) inner
  match body.2 with
  | [] => .error ⟨.unterminated spec, some offset⟩
  | _ :: after =>
    let f ← loopOf spec body.1 offset
    let more ← readPair inBody depth
      (offset + spec.length + 2 + (inner.length - after.length)) after
    return (f :: more.1, more.2)

section Reader

variable {inBody : Bool} {depth offset : Nat} {c : Char} {t tail spec inner : List Char}

theorem readPair_nil : readPair inBody depth offset [] = .ok ([], []) := by
  rw [readPair, read]
  rfl

theorem readPair_close : readPair true 0 offset ('}' :: t) = .ok ([], '}' :: t) := by
  rw [readPair, read, if_neg (by decide), if_pos ⟨rfl, rfl, rfl⟩]
  rfl

theorem readPair_char (hc : c ≠ '@') (hopen : ¬(inBody = true ∧ c = '}' ∧ depth = 0)) :
    readPair inBody depth offset (c :: t) =
      (readPair inBody (depthBehind depth c) (offset + 1) t).map
        fun p => (consChar c p.1, p.2) := by
  rw [readPair, read, if_neg hc, if_neg hopen, readPair]
  show Except.map _ (read inBody (depthBehind depth c) (offset + 1) t >>= _) = _
  cases read inBody (depthBehind depth c) (offset + 1) t <;> rfl

theorem readPair_loop (hspec : spec ≠ []) (htake : tail.takeWhile Char.isAlphanum = spec)
    (hdrop : tail.dropWhile Char.isAlphanum = '{' :: inner) :
    readPair inBody depth offset ('@' :: tail) = readLoop inBody depth offset spec inner := by
  subst htake
  rw [readPair, read, if_pos rfl]
  -- the reader asks for a bracket behind the spec, which is there
  split
  · next inner' heq =>
    obtain rfl : inner' = inner := by
      rw [hdrop] at heq
      exact (List.cons.inj heq).2.symm
    rw [if_neg hspec, readLoop, readPair]
    simp only [bind, Except.bind]
    cases hbody : read true 0 (offset + (tail.takeWhile Char.isAlphanum).length + 2) inner' with
    | error e => rfl
    | ok body =>
      obtain ⟨fs, rest, hle⟩ := body
      cases rest with
      | nil => rfl
      | cons close after =>
        simp only [Except.map, readPair]
        cases loopOf (tail.takeWhile Char.isAlphanum) fs offset with
        | error e => rfl
        | ok f =>
          simp only
          cases read inBody depth (offset + (tail.takeWhile Char.isAlphanum).length + 2 +
            (inner'.length - after.length)) after <;> rfl
  · next hne => exact absurd hdrop (hne inner)

/-- What is read behind an `@`. -/
theorem readPair_at (inBody : Bool) (depth offset : Nat) (tail : List Char) :
    (∃ fault : LoopFault, fault.IsMalformed ∧
        readPair inBody depth offset ('@' :: tail) = .error ⟨fault, some offset⟩) ∨
      ∃ spec inner, tail = spec ++ '{' :: inner ∧ spec ≠ [] ∧
        readPair inBody depth offset ('@' :: tail) = readLoop inBody depth offset spec inner := by
  by_cases hbrace : ∃ inner, tail.dropWhile Char.isAlphanum = '{' :: inner
  · obtain ⟨inner, hdrop⟩ := hbrace
    by_cases hspec : tail.takeWhile Char.isAlphanum = []
    · refine .inl ⟨.noSpec, trivial, ?_⟩
      rw [readPair, read, if_pos rfl]
      split
      · rw [if_pos hspec]
        rfl
      · next hne => exact absurd hdrop (hne inner)
    · refine .inr ⟨_, inner, ?_, hspec, readPair_loop hspec rfl hdrop⟩
      rw [← hdrop, List.takeWhile_append_dropWhile]
  · refine .inl ⟨.noBody (tail.takeWhile Char.isAlphanum), trivial, ?_⟩
    rw [readPair, read, if_pos rfl]
    split
    · next inner hdrop => exact absurd (Exists.intro inner hdrop) hbrace
    · rfl

/-- A loop and what follows it are read if the body ends at a brace, the spec makes a loop, and what
follows is read. -/
theorem readLoop_eq_ok {fs : List Fragment} {rest : List Char} :
    readLoop inBody depth offset spec inner = .ok (fs, rest) ↔
      ∃ body close after f more,
        readPair true 0 (offset + spec.length + 2) inner = .ok (body, close :: after) ∧
        loopOf spec body offset = .ok f ∧
        readPair inBody depth (offset + spec.length + 2 + (inner.length - after.length)) after =
          .ok (more, rest) ∧ fs = f :: more := by
  rw [readLoop, bind_eq_ok]
  constructor
  · rintro ⟨⟨body, _ | ⟨close, after⟩⟩, hbody, h⟩
    · cases h
    · obtain ⟨f, hf, h⟩ := bind_eq_ok.mp h
      obtain ⟨⟨more, _⟩, hmore, h⟩ := bind_eq_ok.mp h
      cases h
      exact ⟨body, close, after, f, more, hbody, hf, hmore, rfl⟩
  · rintro ⟨body, close, after, f, more, hbody, hf, hmore, rfl⟩
    exact ⟨_, hbody, bind_eq_ok.mpr ⟨f, hf, bind_eq_ok.mpr ⟨_, hmore, rfl⟩⟩⟩

/-- It is not read if the body is not, or does not end, or one of the others fails. -/
theorem readLoop_eq_error {e : LoopError}
    (h : readLoop inBody depth offset spec inner = .error e) :
    readPair true 0 (offset + spec.length + 2) inner = .error e ∨
      e = ⟨.unterminated spec, some offset⟩ ∨
      ∃ body close after,
        readPair true 0 (offset + spec.length + 2) inner = .ok (body, close :: after) ∧
        (loopOf spec body offset = .error e ∨
          readPair inBody depth (offset + spec.length + 2 + (inner.length - after.length)) after =
            .error e) := by
  rw [readLoop, bind_eq_error] at h
  obtain h | ⟨⟨body, _ | ⟨close, after⟩⟩, hbody, h⟩ := h
  · exact .inl h
  · cases h
    exact .inr (.inl rfl)
  · refine .inr (.inr ⟨body, close, after, hbody, ?_⟩)
    obtain h | ⟨f, -, h⟩ := bind_eq_error.mp h
    · exact .inl h
    · obtain h | ⟨more, -, h⟩ := bind_eq_error.mp h
      · exact .inr h
      · cases h

theorem fragments_eq (source : List Char) : fragments source =
    readPair false 0 0 source >>= fun p =>
      match p.2 with
      | [] => .ok p.1
      | _ :: _ => .error ⟨.strayEnd, some (source.length - p.2.length)⟩ := by
  rw [fragments, readPair]
  simp only [bind, Except.bind]
  cases read false 0 0 source with
  | error e => rfl
  | ok r =>
    obtain ⟨fs, rest, hle⟩ := r
    cases rest <;> rfl

end Reader

/-! ### The loop that a spec makes -/

section Spec

variable {spec : List Char} {body : List Fragment} {offset : Nat}

/-- A spec of digits or of letters makes a loop, unless it is a count that is too long. -/
theorem loopOf_cases (spec : List Char) (hne : spec ≠ []) (body : List Fragment) (offset : Nat) :
    (∃ f, loopOf spec body offset = .ok f ∧ FitsSpec spec ∧ Specifies body offset spec f ∧
        ∀ fs, Tidy body → Tidy fs → Tidy (f :: fs)) ∨
      (loopOf spec body offset = .error ⟨.mixedSpec spec, some offset⟩ ∧ ¬IsSpec spec) ∨
      (loopOf spec body offset = .error ⟨.hugeCount spec.length, none⟩ ∧
        (∀ c ∈ spec, c.isDigit = true) ∧ maxCountDigits < spec.length) := by
  -- digits are a count, letters are taken one by one, and anything else is refused
  by_cases hdigits : ∀ c ∈ spec, c.isDigit = true
  · have hall : spec.all Char.isDigit = true := List.all_eq_true.mpr hdigits
    rw [loopOf, if_pos hall]
    by_cases hlong : maxCountDigits < spec.length
    · rw [if_pos hlong]
      exact .inr (.inr ⟨rfl, hdigits, hlong⟩)
    · rw [if_neg hlong]
      refine .inl ⟨_, rfl, ⟨⟨hne, .inl hdigits⟩, fun _ => Nat.not_lt.mp hlong⟩, ?_,
        fun fs hbody hfs => .counted hbody hfs⟩
      obtain ⟨zeros, hzeros⟩ := Decimal.exists_zeros_natText hne hdigits
      have hspec : Specifies body offset
          (List.replicate zeros '0' ++ Decimal.natText (Decimal.ofDigits spec))
          (.counted (Decimal.ofDigits spec) body offset) := .counted zeros _
      rwa [← hzeros] at hspec
  · have hall : spec.all Char.isDigit ≠ true := fun h => hdigits (List.all_eq_true.mp h)
    rw [loopOf, if_neg hall]
    by_cases hletters : ∀ c ∈ spec, c.isAlpha = true
    · rw [if_pos (List.all_eq_true.mpr hletters)]
      exact .inl ⟨_, rfl, ⟨⟨hne, .inr hletters⟩, fun h => absurd h hdigits⟩, .lettered spec,
        fun fs hbody hfs => .lettered hne hletters hbody hfs⟩
    · rw [if_neg (fun h => hletters (List.all_eq_true.mp h))]
      refine .inr (.inl ⟨rfl, ?_⟩)
      rintro ⟨-, h | h⟩
      · exact hdigits h
      · exact hletters h

end Spec

/-! ### A character in front of fragments -/

section ConsChar

variable {c : Char} {fs : List Fragment}

theorem Tidy.consChar (hc : c ≠ '@') (h : Tidy fs) : Tidy (consChar c fs) := by
  cases h with
  | nil => exact .plain (by simp) (by simpa using hc.symm) (by simp) .nil
  | plain hne hloop hnext hfs =>
    refine .plain (List.cons_ne_nil _ _) ?_ hnext hfs
    rw [List.mem_cons, not_or]
    exact ⟨hc.symm, hloop⟩
  | counted hbody hfs =>
    exact .plain (by simp) (by simpa using hc.symm) (by simp) (.counted hbody hfs)
  | lettered hne hletters hbody hfs =>
    exact .plain (by simp) (by simpa using hc.symm) (by simp) (.lettered hne hletters hbody hfs)

theorem WrittenAs.consChar {offset : Nat} {t : List Char} (h : WrittenAs (offset + 1) fs t) :
    WrittenAs offset (consChar c fs) (c :: t) := by
  cases h with
  | nil => exact @WrittenAs.plain offset [c] [] [] .nil
  | @plain _ text fs t hfs =>
    refine @WrittenAs.plain offset (c :: text) fs t ?_
    rwa [List.length_cons, ← Nat.add_assoc, Nat.add_right_comm]
  | @loop _ spec body b f fs t hspec hbody hfs =>
    have hrow := WrittenAs.loop hspec hbody hfs
    cases hspec <;> exact @WrittenAs.plain offset [c] _ _ hrow

end ConsChar

/-! ### What is read is written as the text -/

/-- What a reading takes from a text: a row, which its fragments are written as. In a body it stops
at the brace that closes the body, everywhere else at the end of the text. -/
structure Taken (inBody : Bool) (depth offset : Nat) (fs : List Fragment)
    (rest t outside : List Char) : Prop where
  row : IsRow FitsSpec t outside
  tidy : Tidy fs
  written : WrittenAs offset fs t
  all : inBody = false → rest = []
  inside : inBody = true → Inside depth outside
  closed : inBody = true → ∀ c ∈ rest.head?,
    c = '}' ∧ outside.count '}' = depth + outside.count '{'

theorem sound_of_read {inBody : Bool} {depth offset : Nat} {text : List Char} {fs : List Fragment}
    {rest : List Char} (h : readPair inBody depth offset text = .ok (fs, rest)) :
    ∃ t outside, text = t ++ rest ∧ Taken inBody depth offset fs rest t outside := by
  induction hn : text.length using Nat.strong_induction_on
    generalizing inBody depth offset text fs rest with | _ n ih
  subst hn
  cases text with
  | nil =>
    rw [readPair_nil] at h
    cases h
    exact ⟨[], [], rfl, .nil, .nil, .nil, fun _ => rfl, fun _ => inside_nil depth,
      fun _ c hc => by cases hc⟩
  | cons c tail =>
    by_cases hc : c = '@'
    · subst hc
      obtain ⟨_, _, herror⟩ | ⟨spec, inner, rfl, hne, hloop⟩ := readPair_at inBody depth offset tail
      · rw [herror] at h
        cases h
      rw [hloop] at h
      obtain ⟨body, close, after, f, more, hbody, hf, hmore, rfl⟩ := readLoop_eq_ok.mp h
      obtain ⟨b, inner', rfl, hb⟩ := ih inner.length (by simp; omega) hbody rfl
      obtain ⟨t, outside, rfl, ht⟩ := ih after.length (by simp; omega) hmore rfl
      -- the body ends at a brace, so the braces in it are balanced
      obtain ⟨rfl, hsettled⟩ := hb.closed rfl close rfl
      have hbalanced : Balanced inner' := ⟨hb.inside rfl, by rw [hsettled, Nat.zero_add]⟩
      obtain ⟨f', hf', hspec, hwritten, htidy⟩ | ⟨hmixed, -⟩ | ⟨hhuge, -⟩ :=
        loopOf_cases spec hne body offset
      · cases hf.symm.trans hf'
        refine ⟨'@' :: (spec ++ '{' :: (b ++ '}' :: t)), outside, by simp,
          .loop hspec hb.row hbalanced ht.row, htidy _ hb.tidy ht.tidy, ?_, ht.all, ht.inside,
          ht.closed⟩
        refine .loop hwritten hb.written ?_
        have := ht.written
        rwa [show offset + spec.length + 2 + ((b ++ '}' :: (t ++ rest)).length - (t ++ rest).length)
          = offset + spec.length + b.length + 3 by
            rw [List.length_append, List.length_cons]; omega] at this
      · rw [hmixed] at hf
        cases hf
      · rw [hhuge] at hf
        cases hf
    · by_cases hclose : inBody = true ∧ c = '}' ∧ depth = 0
      · obtain ⟨rfl, rfl, rfl⟩ := hclose
        rw [readPair_close] at h
        cases h
        -- the brace is left to the loop that the body belongs to
        refine ⟨[], [], rfl, .nil, .nil, .nil, fun h => (nomatch h), fun _ => inside_nil 0, ?_⟩
        rintro - c hc
        cases hc
        exact ⟨rfl, rfl⟩
      · rw [readPair_char hc hclose] at h
        obtain ⟨⟨more, _⟩, hmore, h⟩ : ∃ p, readPair inBody (depthBehind depth c) (offset + 1) tail
            = .ok p ∧ (consChar c p.1, p.2) = (fs, rest) := by
          cases hr : readPair inBody (depthBehind depth c) (offset + 1) tail with
          | error e =>
            rw [hr] at h
            cases h
          | ok p =>
            rw [hr] at h
            exact ⟨p, rfl, Except.ok.inj h⟩
        cases h
        obtain ⟨t, outside, rfl, ht⟩ := ih tail.length (by simp) hmore rfl
        refine ⟨c :: t, c :: outside, rfl, .char hc ht.row, ht.tidy.consChar hc,
          ht.written.consChar, ht.all, fun hin => ?_, fun hin d hd => ?_⟩
        · exact inside_cons.mpr ⟨fun hzero => hclose ⟨hin, hzero⟩, ht.inside hin⟩
        · obtain ⟨rfl, hcount⟩ := ht.closed hin d hd
          have hdepth := depthBehind_eq fun hzero => hclose ⟨hin, hzero⟩
          rw [List.count_cons, List.count_cons]
          exact ⟨rfl, by omega⟩

/-! ### What the grammar derives is read -/

theorem isAlphanum_of_isSpec {s : List Char} (h : IsSpec s) {c : Char} (hc : c ∈ s) :
    c.isAlphanum = true := by
  rw [Char.isAlphanum, Bool.or_eq_true]
  obtain ⟨-, h | h⟩ := h
  · exact .inr (h c hc)
  · exact .inl (h c hc)

/-- A row in front of a text is read, unless one of its counts is too long. -/
theorem read_row {spec : List Char → Prop} (hspec : ∀ s, spec s → IsSpec s) {t outside : List Char}
    (h : IsRow spec t outside) :
    ∀ inBody depth offset rest, (inBody = true → Inside depth outside) →
      (∃ s, spec s ∧ ¬FitsSpec s ∧
        readPair inBody depth offset (t ++ rest) = .error ⟨.hugeCount s.length, none⟩) ∨
      ∃ depth' : Nat, ∃ prepend : List Fragment → List Fragment,
        (inBody = true → depth' + outside.count '}' = depth + outside.count '{') ∧
        readPair inBody depth offset (t ++ rest) =
          (readPair inBody depth' (offset + t.length) rest).map fun p => (prepend p.1, p.2) := by
  induction h with
  | nil =>
    intro inBody depth offset rest _
    refine .inr ⟨depth, id, fun _ => rfl, ?_⟩
    rw [List.nil_append]
    cases readPair inBody depth offset rest <;> rfl
  | @char c t outside hc _ ih =>
    intro inBody depth offset rest hinside
    have hopen : ¬(inBody = true ∧ c = '}' ∧ depth = 0) := fun ⟨hin, hzero⟩ =>
      (inside_cons.mp (hinside hin)).1 hzero
    have hread : readPair inBody depth offset (c :: (t ++ rest)) = _ := readPair_char hc hopen
    obtain ⟨s, hs, hlong, herror⟩ | ⟨depth', prepend, hdepth', hmore⟩ :=
      ih inBody (depthBehind depth c) (offset + 1) rest fun hin => (inside_cons.mp (hinside hin)).2
    · refine .inl ⟨s, hs, hlong, ?_⟩
      rw [List.cons_append, hread, herror]
      rfl
    · refine .inr ⟨depth', fun fs => consChar c (prepend fs), fun hin => ?_, ?_⟩
      · have hdepth := depthBehind_eq fun hzero => hopen ⟨hin, hzero⟩
        have := hdepth' hin
        rw [List.count_cons, List.count_cons]
        omega
      · rw [List.cons_append, hread, hmore, List.length_cons, Nat.add_assoc, Nat.add_comm 1]
        cases readPair inBody depth' (offset + (t.length + 1)) rest <;> rfl
  | @loop s body inner t outside hs _ hbalanced _ ihbody iht =>
    intro inBody depth offset rest hinside
    have hread : readPair inBody depth offset ('@' :: (s ++ '{' :: (body ++ '}' :: t)) ++ rest) =
        readLoop inBody depth offset s (body ++ '}' :: (t ++ rest)) := by
      have hs' : ∀ c ∈ s, c.isAlphanum = true := fun c => isAlphanum_of_isSpec (hspec s hs)
      rw [show '@' :: (s ++ '{' :: (body ++ '}' :: t)) ++ rest
        = '@' :: (s ++ '{' :: (body ++ '}' :: (t ++ rest))) by simp]
      refine readPair_loop (hspec s hs).1 ?_ ?_
      · rw [List.takeWhile_append_of_pos hs', List.takeWhile_cons_of_neg (by decide),
          List.append_nil]
      · rw [List.dropWhile_append_of_pos hs', List.dropWhile_cons_of_neg (by decide)]
    rw [hread, readLoop]
    obtain ⟨s', hs', hlong, herror⟩ | ⟨depth', prepend, hdepth', hbody⟩ :=
      ihbody true 0 (offset + s.length + 2) ('}' :: (t ++ rest)) fun _ => hbalanced.inside
    · refine .inl ⟨s', hs', hlong, ?_⟩
      rw [herror]
      rfl
    -- the braces of the body are balanced, so it ends at the brace behind it
    obtain rfl : depth' = 0 := by
      have := hdepth' rfl
      have := hbalanced.settled
      omega
    rw [hbody, readPair_close]
    obtain ⟨f, hf, -⟩ | ⟨-, hnot⟩ | ⟨hhuge, hdigits, hlong⟩ :=
      loopOf_cases s (hspec s hs).1 (prepend []) offset
    · have hoffset : offset + s.length + 2 +
          ((body ++ '}' :: (t ++ rest)).length - (t ++ rest).length) =
          offset + s.length + body.length + 3 := by
        rw [List.length_append, List.length_cons]
        omega
      obtain ⟨s', hs', hlong, herror⟩ | ⟨depth', prepend', hdepth', hmore⟩ :=
        iht inBody depth (offset + s.length + body.length + 3) rest hinside
      · refine .inl ⟨s', hs', hlong, ?_⟩
        simp only [Except.map, bind, Except.bind, hf, hoffset, herror]
      · refine .inr ⟨depth', fun fs => f :: prepend' fs, hdepth', ?_⟩
        simp only [Except.map, bind, Except.bind, hf, hoffset, hmore]
        rw [show offset + s.length + body.length + 3 + t.length =
          offset + ('@' :: (s ++ '{' :: (body ++ '}' :: t))).length by
            simp only [List.length_cons, List.length_append]; omega]
        cases readPair inBody depth' _ rest <;> rfl
    · exact absurd (hspec s hs) hnot
    · refine .inl ⟨s, hs, fun hfits => absurd (hfits.2 hdigits) (Nat.not_le.mpr hlong), ?_⟩
      simp only [Except.map, bind, Except.bind, hhuge]

/-! ### What is not read has a fault -/

section Faults

variable {offset : Nat} {text : List Char} {e : LoopError}

theorem AtLoop.append_left {u : List Char} {position : Option Nat}
    (h : AtLoop (offset + u.length) text position) : AtLoop offset (u ++ text) position := by
  obtain ⟨i, hi, hat⟩ := h
  refine ⟨u.length + i, by rw [hi, Nat.add_assoc], ?_⟩
  rw [List.getElem?_append_right (Nat.le_add_right _ _), Nat.add_sub_cancel_left, hat]

theorem AtLoop.append_right {u : List Char} {position : Option Nat}
    (h : AtLoop offset text position) : AtLoop offset (text ++ u) position := by
  obtain ⟨i, hi, hat⟩ := h
  have hlt : i < text.length := (List.getElem?_eq_some_iff.mp hat).1
  exact ⟨i, hi, by rw [List.getElem?_append_left hlt, hat]⟩

theorem FaultIn.append_left {u : List Char} (h : FaultIn (offset + u.length) text e) :
    FaultIn offset (u ++ text) e := by
  obtain ⟨hmalformed, hat⟩ | ⟨digits, he, hdigits, hlong, hinfix⟩ := h
  · exact .inl ⟨hmalformed, hat.append_left⟩
  · exact .inr ⟨digits, he, hdigits, hlong, hinfix.trans (List.suffix_append u text).isInfix⟩

theorem fault_of_read {inBody : Bool} {depth : Nat}
    (h : readPair inBody depth offset text = .error e) : FaultIn offset text e := by
  induction hn : text.length using Nat.strong_induction_on
    generalizing inBody depth offset text with | _ n ih
  subst hn
  cases text with
  | nil =>
    rw [readPair_nil] at h
    cases h
  | cons c tail =>
    by_cases hc : c = '@'
    · subst hc
      have hhere : ∀ fault : LoopFault, fault.IsMalformed →
          FaultIn offset ('@' :: tail) ⟨fault, some offset⟩ :=
        fun fault hfault => .inl ⟨hfault, 0, rfl, rfl⟩
      obtain ⟨fault, hfault, herror⟩ | ⟨spec, inner, rfl, hne, hloop⟩ :=
        readPair_at inBody depth offset tail
      · rw [herror] at h
        cases h
        exact hhere fault hfault
      rw [hloop] at h
      -- the fault is in the body, in the loop itself, or behind it
      obtain hbody | rfl | ⟨body, close, after, hbody, hf | hmore⟩ := readLoop_eq_error h
      · have hfault := ih inner.length (by simp; omega) hbody rfl
        rw [show '@' :: (spec ++ '{' :: inner) = '@' :: (spec ++ ['{']) ++ inner by simp]
        refine .append_left ?_
        rwa [show ('@' :: (spec ++ ['{'])).length = spec.length + 2 by simp, ← Nat.add_assoc]
      · exact hhere _ trivial
      · obtain ⟨f, hok, -⟩ | ⟨hmixed, -⟩ | ⟨hhuge, hdigits, hlong⟩ :=
          loopOf_cases spec hne body offset
        · rw [hok] at hf
          cases hf
        · cases hf.symm.trans hmixed
          exact hhere _ trivial
        · cases hf.symm.trans hhuge
          refine .inr ⟨spec, rfl, hdigits, hlong, [], inner, ?_⟩
          simp
      · obtain ⟨b, _, rfl, -⟩ := sound_of_read hbody
        have hfault := ih after.length (by simp; omega) hmore rfl
        rw [show '@' :: (spec ++ '{' :: (b ++ close :: after)) =
          '@' :: (spec ++ '{' :: (b ++ [close])) ++ after by simp]
        refine .append_left ?_
        rwa [show offset + ('@' :: (spec ++ '{' :: (b ++ [close]))).length =
          offset + spec.length + 2 + ((b ++ close :: after).length - after.length) by
            simp only [List.length_cons, List.length_append, List.length_nil]; omega]
    · by_cases hclose : inBody = true ∧ c = '}' ∧ depth = 0
      · obtain ⟨rfl, rfl, rfl⟩ := hclose
        rw [readPair_close] at h
        cases h
      · rw [readPair_char hc hclose] at h
        cases hr : readPair inBody (depthBehind depth c) (offset + 1) tail with
        | ok p =>
          rw [hr] at h
          cases h
        | error e' =>
          rw [hr] at h
          cases h
          exact .append_left (u := [c]) (ih tail.length (by simp) hr rfl)

end Faults

/-! ### The grammar is what is read -/

section Source

variable {source : List Char}

/-- Outside of bodies, everything is read. -/
theorem taken_of_readPair {fs : List Fragment} {rest : List Char}
    (h : readPair false 0 0 source = .ok (fs, rest)) :
    rest = [] ∧ IsText FitsSpec source ∧ Tidy fs ∧ WrittenAs 0 fs source := by
  obtain ⟨t, outside, rfl, ht⟩ := sound_of_read h
  obtain rfl := ht.all rfl
  rw [List.append_nil]
  exact ⟨rfl, ⟨outside, ht.row⟩, ht.tidy, ht.written⟩

theorem written_of_fragments {fs : List Fragment} (h : fragments source = .ok fs) :
    IsText FitsSpec source ∧ Tidy fs ∧ WrittenAs 0 fs source := by
  rw [fragments_eq] at h
  obtain ⟨⟨fs', rest⟩, hread, h⟩ := bind_eq_ok.mp h
  obtain ⟨rfl, hs⟩ := taken_of_readPair hread
  cases h
  exact hs

theorem faultIn_of_fragments {e : LoopError} (h : fragments source = .error e) :
    FaultIn 0 source e := by
  rw [fragments_eq] at h
  obtain h | ⟨⟨fs, rest⟩, hread, h⟩ := bind_eq_error.mp h
  · exact fault_of_read h
  · obtain ⟨rfl, -⟩ := taken_of_readPair hread
    cases h

/-- A derived text is read, unless one of its counts is too long. -/
theorem fragments_of_isText {spec : List Char → Prop} (hspec : ∀ s, spec s → IsSpec s)
    (h : IsText spec source) :
    (∃ s, spec s ∧ ¬FitsSpec s ∧ fragments source = .error ⟨.hugeCount s.length, none⟩) ∨
      ∃ fs, fragments source = .ok fs := by
  obtain ⟨outside, hrow⟩ := h
  rw [fragments_eq, ← List.append_nil source]
  obtain ⟨s, hs, hlong, herror⟩ | ⟨depth', prepend, -, hok⟩ :=
    read_row hspec hrow false 0 0 [] fun h => (nomatch h)
  · rw [herror]
    exact .inl ⟨s, hs, hlong, rfl⟩
  · rw [hok, readPair_nil]
    exact .inr ⟨prepend [], rfl⟩

end Source

/-- The fragments of a source text are those that it derives: it has fragments exactly if it is a
row of loops whose counts can be read, and then it is what they are written as. A text that has none
is no row, and its error is at an `@` of it; only of a count that is too long, no offset is told. That
text is left over is never found. -/
theorem fragments_exact (source : List Char) :
    ((∃ fs, fragments source = .ok fs) ↔ IsText FitsSpec source) ∧
    (∀ fs, fragments source = .ok fs → Tidy fs ∧ WrittenAs 0 fs source) ∧
    ∀ e, fragments source = .error e →
      (e.fault.IsMalformed ∧ ¬IsText IsSpec source ∧
        ∃ i, e.position = some i ∧ source[i]? = some '@') ∨
      ∃ digits, e = ⟨.hugeCount digits.length, none⟩ ∧ (∀ c ∈ digits, c.isDigit = true) ∧
        maxCountDigits < digits.length ∧ '@' :: (digits ++ ['{']) <:+: source := by
  refine ⟨⟨fun ⟨fs, h⟩ => (written_of_fragments h).1, fun h => ?_⟩,
    fun fs h => (written_of_fragments h).2, fun e h => ?_⟩
  · obtain ⟨s, hs, hlong, -⟩ | hfs := fragments_of_isText (fun s hs => hs.1) h
    · exact absurd hs hlong
    · exact hfs
  · obtain ⟨hmalformed, i, hi, hat⟩ | hhuge := faultIn_of_fragments h
    · refine .inl ⟨hmalformed, fun htext => ?_, i, by rw [hi, Nat.zero_add], hat⟩
      -- a text that is derived would have a count that is too long, which is no fault in its form
      obtain ⟨s, -, -, herror⟩ | ⟨fs, hfs⟩ := fragments_of_isText (fun _ hs => hs) htext
      · cases h.symm.trans herror
        exact hmalformed
      · rw [hfs] at h
        cases h
    · exact .inr hhuge

end FieldLang.Loops
