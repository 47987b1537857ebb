/-
The grammar of the host language.

* `Reads`, `Keeps` : what a reader takes from the front of some tokens;
* `reads_binary`, `keeps_operator`, `reads_power`, `reads_bound` and others : one rule for each
  branch of a reader that succeeds;
* `Ends`, `Stops`, `Closes` : what an operand, a row of operands and an expression end before.

Design notes: the readers carry proofs about lengths, so what they return is stated up to these.
-/
import FieldLang.Host.Reader

namespace FieldLang.Host

section Results

variable {α : Type} {ts : List HostToken}

/-- The reader returns this value and leaves these tokens. -/
def Reads (r : Option (Taken α ts)) (a : α) (rest : List HostToken) : Prop :=
  ∃ h, r = some ⟨a, rest, h⟩

/-- The same for a reader that may take nothing. -/
def Keeps (r : Option (Kept α ts)) (a : α) (rest : List HostToken) : Prop :=
  ∃ h, r = some ⟨a, rest, h⟩

end Results

/-- No token in front belongs to an operand. -/
structure Ends (ts : List HostToken) : Prop where
  bracket : ts.head? ≠ some (.mark "(")
  power : ts.head? ≠ some (.mark "**")

/-- Nor is it an operator of at least a given rank. -/
structure Stops (least : Nat) (ts : List HostToken) : Prop extends Ends ts where
  operator : ∀ t op rank, ts.head? = some t → operator? t = some (op, rank) → rank < least

/-- Nor does it belong to an expression at all. -/
structure Closes (ts : List HostToken) : Prop extends Stops 1 ts where
  conditional : ts.head? ≠ some (.name "if")

theorem Stops.mono {least least' : Nat} {ts : List HostToken} (h : Stops least ts)
    (hle : least ≤ least') : Stops least' ts where
  toEnds := h.toEnds
  operator t op rank ht hop := Nat.lt_of_lt_of_le (h.operator t op rank ht hop) hle

/-- Before a token that is neither an opening bracket nor an operator. -/
theorem stops_cons {t : HostToken} (hbracket : t ≠ .mark "(") (hpower : t ≠ .mark "**")
    (hop : operator? t = none) (least : Nat) (ts : List HostToken) : Stops least (t :: ts) where
  bracket h := hbracket (Option.some.inj h)
  power h := hpower (Option.some.inj h)
  operator t' op rank ht hop' := by
    obtain rfl : t = t' := Option.some.inj ht
    rw [hop] at hop'
    cases hop'

/-- Before an operator of a lower rank. -/
theorem stops_operator {t : HostToken} {op : BinOp} {rank least : Nat}
    (hop : operator? t = some (op, rank)) (hlt : rank < least) (ts : List HostToken) :
    Stops least (t :: ts) where
  bracket h := by
    cases h
    cases hop
  power h := by
    cases h
    cases hop
  operator t' op' rank' ht hop' := by
    obtain rfl : t = t' := Option.some.inj ht
    rw [hop] at hop'
    cases hop'
    exact hlt

theorem closes_nil : Closes [] where
  bracket := nofun
  power := nofun
  operator := nofun
  conditional := nofun

theorem closes_mark {spelling : String} (h : spelling ∈ [")", "]", ",", "="])
    (ts : List HostToken) : Closes (.mark spelling :: ts) where
  toStops := by
    refine stops_cons ?_ ?_ ?_ 1 ts
    · rintro ⟨⟩
      revert h
      decide
    · rintro ⟨⟩
      revert h
      decide
    · simp only [List.mem_cons, List.not_mem_nil, or_false] at h
      rcases h with rfl | rfl | rfl | rfl <;> rfl
  conditional h := by cases h

theorem closes_line (indent : Nat) (ts : List HostToken) : Closes (.line indent :: ts) where
  toStops := stops_cons (by simp) (by simp) rfl 1 ts
  conditional h := by cases h

theorem closes_else (ts : List HostToken) : Stops 1 (.name "else" :: ts) :=
  stops_cons (by simp) (by simp) rfl 1 ts

-- Naming the readers here generates their equations once, ahead of the proofs that use them.
attribute [local simp] test binary operators comparisons signed power atom items rowTail block

variable {least : Nat} {ts mid rest : List HostToken} {e e' e'' : HostExpr}

/-! ### Operators -/

theorem reads_binary (hfirst : Reads (signed ts) e mid)
    (hwhole : Keeps (operators least e mid) e' rest) : Reads (binary least ts) e' rest := by
  obtain ⟨h₁, hfirst⟩ := hfirst
  obtain ⟨h₂, hwhole⟩ := hwhole
  refine ⟨by omega, ?_⟩
  rw [binary, hfirst]
  simp only [bind, Option.bind, hwhole]
  rfl

theorem keeps_stop (h : Stops least ts) : Keeps (operators least e ts) e ts := by
  refine ⟨Nat.le_refl _, ?_⟩
  rw [operators.eq_def]
  cases ts with
  | nil => rfl
  | cons t ts =>
    simp only
    cases hop : operator? t with
    | none => rfl
    | some r =>
      obtain ⟨op, rank⟩ := r
      simp only
      rw [if_pos (h.operator t op rank rfl hop)]

variable {t : HostToken} {op : BinOp} {rank : Nat}

theorem keeps_operator (hop : operator? t = some (op, rank)) (hleast : least ≤ rank)
    (hrank : rank ≠ compareRank) (hrhs : Reads (binary (rank + 1) ts) e' mid)
    (hwhole : Keeps (operators least (.binary op e e') mid) e'' rest) :
    Keeps (operators least e (t :: ts)) e'' rest := by
  obtain ⟨h₁, hrhs⟩ := hrhs
  obtain ⟨h₂, hwhole⟩ := hwhole
  refine ⟨by simp; omega, ?_⟩
  rw [operators]
  simp only [hop, if_neg (Nat.not_lt.mpr hleast), hrhs, bind, Option.bind, if_neg hrank, hwhole]
  rfl

theorem keeps_no_comparison (h : Stops compareRank ts) : Keeps (comparisons ts) [] ts := by
  refine ⟨Nat.le_refl _, ?_⟩
  rw [comparisons.eq_def]
  cases ts with
  | nil => rfl
  | cons t ts =>
    simp only
    cases hop : operator? t with
    | none => rfl
    | some r =>
      obtain ⟨op, rank⟩ := r
      simp only
      rw [if_neg (Nat.ne_of_lt (h.operator t op rank rfl hop))]

/-- A single comparison. -/
theorem keeps_comparison (hop : operator? t = some (op, compareRank)) (hleast : least ≤ compareRank)
    (hrhs : Reads (binary (compareRank + 1) ts) e' mid) (hmid : Stops compareRank mid)
    (hwhole : Keeps (operators least (.compare [e, e'] [op]) mid) e'' rest) :
    Keeps (operators least e (t :: ts)) e'' rest := by
  obtain ⟨h₁, hrhs⟩ := hrhs
  obtain ⟨h₂, hmore⟩ := keeps_no_comparison hmid
  obtain ⟨h₃, hwhole⟩ := hwhole
  refine ⟨by simp; omega, ?_⟩
  rw [operators]
  simp only [hop, if_neg (Nat.not_lt.mpr hleast), hrhs, bind, Option.bind, if_true, hmore]
  simp only [List.map_nil, hwhole]
  rfl

/-! ### Operands -/

theorem reads_minus (h : Reads (signed ts) e rest) :
    Reads (signed (.mark "-" :: ts)) (.negate e) rest := by
  obtain ⟨h₁, h⟩ := h
  refine ⟨by simp; omega, ?_⟩
  rw [signed, h]
  rfl

theorem reads_signed (hminus : ts.head? ≠ some (.mark "-")) (h : Reads (power ts) e rest) :
    Reads (signed ts) e rest := by
  obtain ⟨h₁, h⟩ := h
  refine ⟨h₁, ?_⟩
  rw [signed.eq_def]
  split
  · exact absurd rfl hminus
  · exact h

/-- What reads an atom reads no sign. -/
theorem Reads.no_minus (h : Reads (atom ts) e rest) : ts.head? ≠ some (.mark "-") := by
  intro hminus
  obtain ⟨us, rfl⟩ := List.head?_eq_some_iff.mp hminus
  obtain ⟨h₁, h⟩ := h
  have hnone : atom (.mark "-" :: us) = none := by
    rw [atom.eq_def]
    rfl
  rw [hnone] at h
  cases h

theorem reads_power (hrest : rest.head? ≠ some (.mark "**")) (h : Reads (atom ts) e rest) :
    Reads (power ts) e rest := by
  obtain ⟨h₁, h⟩ := h
  refine ⟨h₁, ?_⟩
  rw [power, h]
  simp only [bind, Option.bind]
  split
  · exact absurd rfl hrest
  · rfl

theorem reads_exponent (hbase : Reads (atom ts) e (.mark "**" :: mid))
    (hexponent : Reads (signed mid) e' rest) : Reads (power ts) (.binary .pow e e') rest := by
  obtain ⟨h₁, hbase⟩ := hbase
  obtain ⟨h₂, hexponent⟩ := hexponent
  refine ⟨by simp at h₁; omega, ?_⟩
  rw [power, hbase]
  simp only [bind, Option.bind, hexponent]
  rfl

theorem reads_whole (n : Nat) : Reads (atom (.whole n :: ts)) (.whole n) ts :=
  ⟨by simp, by rw [atom]⟩

theorem reads_real (x : Float) : Reads (atom (.real x :: ts)) (.real x) ts :=
  ⟨by simp, by rw [atom]⟩

theorem reads_name {n : String} (hn : isName n = true) (hrest : ts.head? ≠ some (.mark "(")) :
    Reads (atom (.name n :: ts)) (.name n) ts := by
  refine ⟨by simp, ?_⟩
  rw [atom, if_pos hn]
  rintro rest rfl
  exact hrest rfl

theorem reads_call {f : String} (hf : isName f = true) {es : List HostExpr}
    (h : Reads (items ")" ts) es rest) :
    Reads (atom (.name f :: .mark "(" :: ts)) (.call f es) rest := by
  obtain ⟨h₁, h⟩ := h
  refine ⟨by simp; omega, ?_⟩
  rw [atom, if_pos hf, h]
  rfl

theorem reads_list {es : List HostExpr} (h : Reads (items "]" ts) es rest) :
    Reads (atom (.mark "[" :: ts)) (.list es) rest := by
  obtain ⟨h₁, h⟩ := h
  refine ⟨by simp; omega, ?_⟩
  rw [atom, h]
  rfl

theorem reads_bound {n : String} (hn : isName n = true) (h : Reads (test ts) e (.mark ")" :: rest)) :
    Reads (atom (.mark "(" :: .name n :: .mark ":=" :: ts)) (.bind n e) rest := by
  obtain ⟨h₁, h⟩ := h
  refine ⟨by simp at h₁ ⊢; omega, ?_⟩
  rw [atom, if_pos hn, h]
  rfl

/-- What stands in brackets is neither empty nor bound to a name. -/
structure Plain (ts : List HostToken) : Prop where
  nonempty : ts.head? ≠ some (.mark ")")
  unbound : ∀ n rest, ts ≠ .name n :: .mark ":=" :: rest

theorem reads_parens (hplain : Plain ts) (h : Reads (test ts) e (.mark ")" :: rest)) :
    Reads (atom (.mark "(" :: ts)) e rest := by
  obtain ⟨h₁, h⟩ := h
  refine ⟨by simp at h₁ ⊢; omega, ?_⟩
  rw [atom, h]
  · rfl
  · exact hplain.unbound
  · rintro rest rfl
    exact hplain.nonempty rfl

/-! ### Items and conditionals -/

/-- The token of a closing mark. -/
theorem closing_eq {t : HostToken} {closing : String} :
    (t == .mark closing) = true ↔ t = .mark closing := by
  cases t with
  | mark spelling =>
    rw [HostToken.mark.injEq, ← beq_iff_eq (a := spelling)]
    exact Iff.rfl
  | _ => exact ⟨fun h => absurd (show false = true from h) Bool.false_ne_true, nofun⟩

theorem reads_no_items (closing : String) : Reads (items closing (.mark closing :: ts)) [] ts := by
  refine ⟨by simp, ?_⟩
  rw [items, if_pos (closing_eq.mpr rfl)]

theorem reads_last_item {closing : String} (hclosing : closing ≠ ",")
    (hfirst : ts.head? ≠ some (.mark closing)) (h : Reads (test ts) e (.mark closing :: rest)) :
    Reads (items closing ts) [e] rest := by
  obtain ⟨h₁, h⟩ := h
  refine ⟨by simp at h₁ ⊢; omega, ?_⟩
  cases ts with
  | nil => exact absurd h₁ (by simp)
  | cons t ts =>
    rw [items, if_neg fun heq => hfirst (congrArg some (closing_eq.mp heq)), h]
    simp only [bind, Option.bind]
    split
    · next after heq => exact absurd (HostToken.mark.inj (List.cons.inj heq).1) hclosing
    · next t' after hne heq =>
      obtain ⟨rfl, rfl⟩ := List.cons.inj heq
      rw [if_pos (closing_eq.mpr rfl)]
      rfl
    · next heq => cases heq

theorem reads_items {closing : String} {es : List HostExpr}
    (hfirst : ts.head? ≠ some (.mark closing)) (h : Reads (test ts) e (.mark "," :: mid))
    (hmore : Reads (items closing mid) es rest) : Reads (items closing ts) (e :: es) rest := by
  obtain ⟨h₁, h⟩ := h
  obtain ⟨h₂, hmore⟩ := hmore
  refine ⟨by simp at h₁ ⊢; omega, ?_⟩
  cases ts with
  | nil => exact absurd h₁ (by simp)
  | cons t ts =>
    rw [items, if_neg fun heq => hfirst (congrArg some (closing_eq.mp heq)), h]
    simp only [bind, Option.bind, hmore]
    rfl

theorem reads_test (hrest : rest.head? ≠ some (.name "if")) (h : Reads (binary 1 ts) e rest) :
    Reads (test ts) e rest := by
  obtain ⟨h₁, h⟩ := h
  refine ⟨h₁, ?_⟩
  rw [test, h]
  simp only [bind, Option.bind]
  split
  · exact absurd rfl hrest
  · rfl

theorem reads_conditional {mid' : List HostToken} (hfirst : Reads (binary 1 ts) e (.name "if" :: mid))
    (hcondition : Reads (binary 1 mid) e' (.name "else" :: mid'))
    (hother : Reads (test mid') e'' rest) : Reads (test ts) (.conditional e e' e'') rest := by
  obtain ⟨h₁, hfirst⟩ := hfirst
  obtain ⟨h₂, hcondition⟩ := hcondition
  obtain ⟨h₃, hother⟩ := hother
  refine ⟨by simp at h₁ h₂; omega, ?_⟩
  rw [test, hfirst]
  simp only [bind, Option.bind, hcondition, hother]
  rfl

/-! ### Rows and lines -/

theorem closes_of_endsRow (h : endsRow ts = true) : Closes ts ∧ ts.head? ≠ some (.mark ",") := by
  revert h
  rw [endsRow.eq_def]
  split
  · exact fun _ => ⟨closes_nil, nofun⟩
  · next indent ts => exact fun _ => ⟨closes_line indent ts, by simp⟩
  · next ts => exact fun _ => ⟨closes_mark (by simp) ts, by simp⟩
  · exact fun h => absurd h Bool.false_ne_true

theorem keeps_row_end (h : ts.head? ≠ some (.mark ",")) : Keeps (rowTail ts) ([], false) ts := by
  refine ⟨Nat.le_refl _, ?_⟩
  rw [rowTail.eq_def]
  split
  · exact absurd rfl h
  · rfl

theorem keeps_last_comma (h : endsRow ts = true) :
    Keeps (rowTail (.mark "," :: ts)) ([], true) ts := by
  refine ⟨by simp, ?_⟩
  rw [rowTail, if_pos h]

theorem keeps_row {es : List HostExpr} {comma : Bool} (hends : endsRow ts = false)
    (hfirst : Reads (test ts) e mid) (hmore : Keeps (rowTail mid) (es, comma) rest) :
    Keeps (rowTail (.mark "," :: ts)) (e :: es, true) rest := by
  obtain ⟨h₁, hfirst⟩ := hfirst
  obtain ⟨h₂, hmore⟩ := hmore
  refine ⟨by simp; omega, ?_⟩
  rw [rowTail, if_neg (by simp [hends]), hfirst]
  simp only [bind, Option.bind, hmore]
  rfl

theorem reads_row_single (hfirst : Reads (test ts) e mid)
    (hmore : Keeps (rowTail mid) ([], false) rest) : Reads (row ts) e rest := by
  obtain ⟨h₁, hfirst⟩ := hfirst
  obtain ⟨h₂, hmore⟩ := hmore
  refine ⟨by omega, ?_⟩
  rw [row, hfirst]
  simp only [bind, Option.bind, hmore]
  rfl

theorem reads_row_tuple {es : List HostExpr} (hfirst : Reads (test ts) e mid)
    (hmore : Keeps (rowTail mid) (es, true) rest) : Reads (row ts) (.tuple (e :: es)) rest := by
  obtain ⟨h₁, hfirst⟩ := hfirst
  obtain ⟨h₂, hmore⟩ := hmore
  refine ⟨by omega, ?_⟩
  rw [row, hfirst]
  simp only [bind, Option.bind, hmore]
  rfl

theorem reads_return (hends : endsRow ts = false) (h : Reads (row ts) e rest) :
    Reads (line (.name "return" :: ts)) (.return (some e)) rest := by
  obtain ⟨h₁, h⟩ := h
  refine ⟨by simp; omega, ?_⟩
  rw [line, if_neg (by simp [hends]), h]
  rfl

theorem reads_assign (hreturn : ts.head? ≠ some (.name "return"))
    (hfirst : Reads (row ts) e (.mark "=" :: mid)) {target : HostTarget}
    (htarget : targetOf? e = some target) (hvalue : Reads (row mid) e' rest) :
    Reads (line ts) (.assign target e') rest := by
  obtain ⟨h₁, hfirst⟩ := hfirst
  obtain ⟨h₂, hvalue⟩ := hvalue
  refine ⟨by simp at h₁; omega, ?_⟩
  rw [line.eq_def]
  split
  · exact absurd rfl hreturn
  · rw [hfirst]
    simp only [bind, Option.bind, htarget, hvalue]
    rfl

theorem reads_expr (hreturn : ts.head? ≠ some (.name "return")) (h : Reads (row ts) e rest)
    (hrest : rest.head? ≠ some (.mark "=")) : Reads (line ts) (.expr e) rest := by
  obtain ⟨h₁, h⟩ := h
  refine ⟨h₁, ?_⟩
  rw [line.eq_def]
  split
  · exact absurd rfl hreturn
  · rw [h]
    simp only [bind, Option.bind]
    split
    · exact absurd rfl hrest
    · rfl

theorem block_nil (indent : Nat) : block indent [] = some [] := by rw [block]

theorem block_cons {s : HostStmt} {ss : List HostStmt} {indent : Nat} (h : Reads (line ts) s rest)
    (hrest : block indent rest = some ss) :
    block indent (.line indent :: ts) = some (s :: ss) := by
  obtain ⟨h₁, h⟩ := h
  rw [block, if_pos rfl, h]
  simp only [bind, Option.bind, hrest]
  rfl

end FieldLang.Host
