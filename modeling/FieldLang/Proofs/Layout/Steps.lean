/-
Laying out a document step by step.

* `Leaf`, `Doc.leaves` : the texts of a document and its places to break the line, in order;
* `Row`, `Moment` : a line that is written, and a moment of a layout;
* `Step`, `Reaches` : the next moment, and the moments after it;
* `text_reaches`, `exists_last` : the machine writes what is written on the way to the last moment;
* `rows_of_reaches` : what is written stays;
* `reaches_flat` : what is laid flat is written on one line.

Design notes: a moment keeps the lines apart and knows which places to break were laid flat, neither
of which can be told from a text.
-/
import FieldLang.Proofs.Layout.Rendering
import Mathlib.Logic.Relation

namespace FieldLang.Layout

/-! ### Leaves -/

/-- A text, or a place to break the line. -/
inductive Leaf where
  | text (s : String)
  | line (flat : String) (hard : Bool)

namespace Leaf

/-- A leaf that is laid flat. -/
def flat : Leaf → String
  | text s => s
  | line s _ => s

/-- Whether the line can be broken here. -/
def isBreak : Leaf → Bool
  | text _ => false
  | line _ _ => true

/-- Whether the line must be broken here. -/
def isHard : Leaf → Bool
  | text _ => false
  | line _ hard => hard

theorem isHard_eq_false {l : Leaf} (h : l.isBreak = false) : l.isHard = false := by
  cases l with
  | text s => rfl
  | line s hard => cases h

end Leaf

/-- The columns that leaves take if they are laid flat. -/
def columns : List Leaf → Int
  | [] => 0
  | l :: ls => l.flat.length + columns ls

@[simp] theorem columns_nil : columns [] = 0 := rfl

@[simp] theorem columns_cons (l : Leaf) (ls : List Leaf) :
    columns (l :: ls) = l.flat.length + columns ls := rfl

@[simp] theorem columns_append (ls ls' : List Leaf) :
    columns (ls ++ ls') = columns ls + columns ls' := by
  induction ls with
  | nil => simp
  | cons l ls ih => rw [List.cons_append, columns_cons, columns_cons, ih, Int.add_assoc]

theorem columns_nonneg (ls : List Leaf) : 0 ≤ columns ls := by
  induction ls with
  | nil => exact Int.le_refl 0
  | cons l ls ih =>
    rw [columns_cons]
    omega

mutual

/-- The texts of a document and its places to break the line, in order. -/
def Doc.leaves : Doc → List Leaf
  | .text s => [.text s]
  | .line flat hard => [.line flat hard]
  | .nest _ doc => doc.leaves
  | .group doc => doc.leaves
  | .concat parts => leavesAll parts

/-- The same of documents in a row. -/
def leavesAll : List Doc → List Leaf
  | [] => []
  | doc :: docs => doc.leaves ++ leavesAll docs

end

/-- What is left of a document: the leaves on a stack. -/
def leavesLeft (stack : List Frame) : List Leaf := stack.flatMap fun f => f.doc.leaves

theorem leavesLeft_framesOf (indent : Int) (flat : Bool) (parts : List Doc) :
    leavesLeft (framesOf indent flat parts) = leavesAll parts := by
  induction parts with
  | nil => rfl
  | cons doc docs ih =>
    rw [leavesAll, ← ih]
    rfl

/-! ### Moments -/

/-- A line: its indentation, and the leaves on it, which are laid flat. -/
structure Row where
  indent : Int
  leaves : List Leaf

namespace Row

/-- The columns that a line takes. -/
def width (r : Row) : Int := r.indent + columns r.leaves

/-- The text of a line. -/
def chars (r : Row) : List Char :=
  List.replicate r.indent.toNat ' ' ++ r.leaves.flatMap fun l => l.flat.toList

/-- A line with one more leaf on it. -/
def push (r : Row) (l : Leaf) : Row := ⟨r.indent, r.leaves ++ [l]⟩

theorem width_push (r : Row) (l : Leaf) : (r.push l).width = r.width + l.flat.length := by
  simp only [width, push, columns_append, columns_cons, columns_nil]
  omega

theorem chars_push (r : Row) (l : Leaf) : (r.push l).chars = r.chars ++ l.flat.toList := by
  simp [chars, push]

end Row

/-- A moment of a layout. -/
structure Moment where
  /-- The lines that are finished. -/
  above : List Row
  /-- The line that is being filled. -/
  row : Row
  /-- What is still to be laid out. -/
  stack : List Frame

namespace Moment

/-- The moment before anything is laid out. -/
def start (doc : Doc) : Moment := ⟨[], ⟨0, []⟩, [⟨0, false, doc⟩]⟩

/-- The lines that are written. -/
def rows (m : Moment) : List Row := m.above ++ [m.row]

/-- The text that is written. -/
def text (m : Moment) : List Char := Text.join '\n' (m.rows.map Row.chars)

end Moment

/-- A group becomes what it holds, laid flat if it and what follows it fits; a place to break the line
is laid flat or breaks it. -/
inductive Step (width : Int) : Moment → Moment → Prop where
  | text {above row rest indent flat} (s : String) :
    Step width ⟨above, row, ⟨indent, flat, .text s⟩ :: rest⟩ ⟨above, row.push (.text s), rest⟩
  | concat {above row rest indent flat} (parts : List Doc) :
    Step width ⟨above, row, ⟨indent, flat, .concat parts⟩ :: rest⟩
      ⟨above, row, framesOf indent flat parts ++ rest⟩
  | nest {above row rest indent flat} (more : Int) (doc : Doc) :
    Step width ⟨above, row, ⟨indent, flat, .nest more doc⟩ :: rest⟩
      ⟨above, row, ⟨indent + more, flat, doc⟩ :: rest⟩
  | flat {above row rest indent} (s : String) :
    Step width ⟨above, row, ⟨indent, true, .line s false⟩ :: rest⟩
      ⟨above, row.push (.line s false), rest⟩
  | breakLine {above row rest indent flat} (s : String) (hard : Bool)
    (h : flat = true → hard = false → False) :
    Step width ⟨above, row, ⟨indent, flat, .line s hard⟩ :: rest⟩ ⟨above ++ [row], ⟨indent, []⟩, rest⟩
  | flatGroup {above row rest indent} (doc : Doc) :
    Step width ⟨above, row, ⟨indent, true, .group doc⟩ :: rest⟩
      ⟨above, row, ⟨indent, true, doc⟩ :: rest⟩
  | group {above row rest indent} (doc : Doc) :
    Step width ⟨above, row, ⟨indent, false, .group doc⟩ :: rest⟩
      ⟨above, row, ⟨indent, fits (width - row.width) (⟨indent, true, doc⟩ :: rest), doc⟩ :: rest⟩

/-- One moment comes after another one, or is the same. -/
def Reaches (width : Int) : Moment → Moment → Prop := Relation.ReflTransGen (Step width)

section Steps

variable {width : Int} {doc : Doc} {m m' m'' : Moment} {above : List Row} {row : Row}
  {rest : List Frame}

/-- What every step keeps holds of every moment. -/
theorem Reaches.keeps {motive : Moment → Prop} (h : Reaches width (.start doc) m)
    (start : motive (.start doc)) (step : ∀ m m', Step width m m' → motive m → motive m') :
    motive m := by
  induction h with
  | refl => exact start
  | tail _ hstep ih => exact step _ _ hstep ih

/-! ### The last moment -/

theorem Step.unique (h : Step width m m') (h' : Step width m m'') : m' = m'' := by
  cases h <;> cases h' <;> first | rfl | simp_all

theorem exists_step (h : m.stack ≠ []) : ∃ m', Step width m m' := by
  obtain ⟨above, row, _ | ⟨⟨indent, flat, doc⟩, rest⟩⟩ := m
  · exact absurd rfl h
  cases doc with
  | text s => exact ⟨_, .text s⟩
  | concat parts => exact ⟨_, .concat parts⟩
  | nest more doc => exact ⟨_, .nest more doc⟩
  | line s hard =>
    by_cases hflat : flat = true ∧ hard = false
    · obtain ⟨rfl, rfl⟩ := hflat
      exact ⟨_, .flat s⟩
    · exact ⟨_, .breakLine s hard fun h h' => hflat ⟨h, h'⟩⟩
  | group doc =>
    cases flat with
    | false => exact ⟨_, .group doc⟩
    | true => exact ⟨_, .flatGroup doc⟩

/-- Every step leaves less to be laid out. -/
theorem Step.stackSize_lt (h : Step width m m') : stackSize m'.stack < stackSize m.stack := by
  cases h <;> simp only [stackSize, stackSize_append, stackSize_framesOf, Doc.size] <;> omega

theorem exists_last (width : Int) (m : Moment) : ∃ last, Reaches width m last ∧ last.stack = [] := by
  induction hn : stackSize m.stack using Nat.strong_induction_on generalizing m with | _ n ih
  subst hn
  by_cases hstack : m.stack = []
  · exact ⟨m, .refl, hstack⟩
  · obtain ⟨m', hm'⟩ : ∃ m', Step width m m' := exists_step hstack
    obtain ⟨last, hlast, hempty⟩ := ih _ hm'.stackSize_lt m' rfl
    exact ⟨last, .head hm' hlast, hempty⟩

/-- Every moment comes before the last one. -/
theorem Reaches.last {start last : Moment} (h : Reaches width start m)
    (hlast : Reaches width start last) (hstack : last.stack = []) : Reaches width m last := by
  have hunique : Relator.RightUnique (Step width) := fun _ _ _ => Step.unique
  rcases Relation.ReflTransGen.total_of_right_unique hunique h hlast with h | h
  · exact h
  · rcases Relation.ReflTransGen.cases_head h with rfl | ⟨m', hm', -⟩
    · exact .refl
    · obtain ⟨above, row, stack⟩ := last
      cases hstack
      cases hm'

/-! ### What is written -/

theorem join_concat (lines : List (List Char)) (line : List Char) :
    Text.join '\n' (lines ++ [line]) = (lines.flatMap fun l => l ++ ['\n']) ++ line := by
  induction lines with
  | nil => rfl
  | cons l lines ih =>
    rw [List.cons_append, Text.join, ih, List.flatMap_cons]
    · simp only [List.append_assoc, List.cons_append, List.nil_append]
    · exact List.append_ne_nil_of_right_ne_nil _ (List.cons_ne_nil _ _)

theorem text_push (l : Leaf) : (Moment.mk above (row.push l) rest).text =
    (Moment.mk above row rest).text ++ l.flat.toList := by
  simp only [Moment.text, Moment.rows, List.map_append, List.map_cons, List.map_nil, join_concat,
    Row.chars_push, List.append_assoc]

theorem text_break (indent : Int) :
    (Moment.mk (above ++ [row]) ⟨indent, []⟩ rest).text =
      (Moment.mk above row rest).text ++ '\n' :: List.replicate indent.toNat ' ' := by
  simp only [Moment.text, Moment.rows, List.map_append, List.map_cons, List.map_nil]
  rw [join_concat, join_concat, List.flatMap_append]
  simp only [List.flatMap_cons, List.flatMap_nil, List.append_nil, List.append_assoc, Row.chars,
    List.cons_append, List.nil_append]

/-- What is written and what the machine still writes are the same text at any moment. -/
theorem Step.text_eq (h : Step width m m') :
    m'.text ++ layOut width m'.row.width m'.stack = m.text ++ layOut width m.row.width m.stack := by
  cases h with
  | text s =>
    rw [layOut, text_push, Row.width_push, List.append_assoc]
    rfl
  | concat parts => rw [layOut]; rfl
  | nest more doc => rw [layOut]; rfl
  | flat s =>
    rw [layOut, text_push, Row.width_push, List.append_assoc]
    rfl
  | @breakLine above row rest indent flat s hard h =>
    rw [layOut.eq_6 _ _ _ _ _ _ _ h, text_break, List.append_assoc, List.cons_append]
    simp only [Row.width, columns_nil, Int.add_zero]
    rfl
  | flatGroup doc => rw [layOut]; rfl
  | group doc => rw [layOut]; rfl

/-- The machine goes on from any moment to what it lays out from the start. -/
theorem text_reaches {doc : Doc} (h : Reaches width (.start doc) m) :
    m.text ++ layOut width m.row.width m.stack = layOut width 0 [⟨0, false, doc⟩] := by
  induction h with
  | refl => rfl
  | tail _ hstep ih => exact hstep.text_eq.trans ih

/-- The lines of a rendered document are those of the last moment, each trimmed, if there is no newline
in any of them. -/
theorem render_rows {last : Moment} (hwidth : 0 < width) (h : Reaches width (.start doc) last)
    (hstack : last.stack = []) (hrows : ∀ r ∈ last.rows, '\n' ∉ r.chars) :
    ∃ out, doc.render width = .ok out ∧
      Text.split '\n' out = last.rows.map fun r => Text.trimEnd r.chars := by
  have hchars : Text.split '\n' last.text = last.rows.map Row.chars := by
    refine split_join (fun line hline => ?_) (by simp [Moment.rows])
    obtain ⟨r, hr, rfl⟩ := List.mem_map.mp hline
    exact hrows r hr
  refine ⟨Text.join '\n' ((Text.split '\n' last.text).map Text.trimEnd), ?_, ?_⟩
  · have htext := text_reaches h
    rw [hstack, layOut, List.append_nil] at htext
    rw [Doc.render, if_neg (by omega), htext]
  · rw [hchars, List.map_map, split_join]
    · rfl
    · intro line hline
      obtain ⟨r, hr, rfl⟩ := List.mem_map.mp hline
      exact not_mem_trimEnd (hrows r hr)
    · simp [Moment.rows]

/-- What is written stays: lines that are finished as they are, and the one that is being filled up to
where it is. -/
theorem rows_of_reaches (h : Reaches width m m') :
    ∃ more rows, m'.rows = m.above ++ ⟨m.row.indent, m.row.leaves ++ more⟩ :: rows := by
  induction h using Relation.ReflTransGen.head_induction_on with
  | refl => exact ⟨[], [], by rw [List.append_nil]; rfl⟩
  | head hstep _ ih =>
    obtain ⟨more, rows, hrows⟩ := ih
    cases hstep with
    | text s => exact ⟨.text s :: more, rows, by simpa [Row.push] using hrows⟩
    | flat s => exact ⟨.line s false :: more, rows, by simpa [Row.push] using hrows⟩
    | @breakLine above row rest indent =>
      exact ⟨[], ⟨indent, more⟩ :: rows, by simpa using hrows⟩
    | concat | nest | flatGroup | group => exact ⟨more, rows, hrows⟩

end Steps

/-! ### What is laid flat -/

mutual

/-- A document that is laid flat goes on the line as a whole, if no break in it is hard. -/
theorem reaches_flat {width indent : Int} {above : List Row} {row : Row} {rest : List Frame} :
    ∀ doc : Doc, (∀ l ∈ doc.leaves, l.isHard = false) →
      Reaches width ⟨above, row, ⟨indent, true, doc⟩ :: rest⟩
        ⟨above, ⟨row.indent, row.leaves ++ doc.leaves⟩, rest⟩
  | .text s, _ => .single (.text s)
  | .line s false, _ => .single (.flat s)
  | .line _ true, h => absurd (h _ (List.mem_singleton_self _)) Bool.noConfusion
  | .nest more doc, h => .head (.nest more doc) (reaches_flat doc h)
  | .group doc, h => .head (.flatGroup doc) (reaches_flat doc h)
  | .concat parts, h => .head (.concat parts) (reaches_flatAll parts h)

theorem reaches_flatAll {width indent : Int} {above : List Row} {row : Row} {rest : List Frame} :
    ∀ parts : List Doc, (∀ l ∈ leavesAll parts, l.isHard = false) →
      Reaches width ⟨above, row, framesOf indent true parts ++ rest⟩
        ⟨above, ⟨row.indent, row.leaves ++ leavesAll parts⟩, rest⟩
  | [], _ => by
    rw [leavesAll, List.append_nil]
    exact .refl
  | doc :: docs, h => by
    have hdoc : Reaches width ⟨above, row, ⟨indent, true, doc⟩ :: (framesOf indent true docs ++ rest)⟩
        ⟨above, ⟨row.indent, row.leaves ++ doc.leaves⟩, framesOf indent true docs ++ rest⟩ :=
      reaches_flat doc fun l hl => h l (List.mem_append_left _ hl)
    have hdocs : Reaches width
        ⟨above, ⟨row.indent, row.leaves ++ doc.leaves⟩, framesOf indent true docs ++ rest⟩
        ⟨above, ⟨row.indent, row.leaves ++ doc.leaves ++ leavesAll docs⟩, rest⟩ :=
      reaches_flatAll docs fun l hl => h l (List.mem_append_right _ hl)
    rw [List.append_assoc] at hdocs
    exact hdoc.trans hdocs

end

end FieldLang.Layout
