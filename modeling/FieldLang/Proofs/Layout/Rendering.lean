/-
Which texts a document can be laid out as.

* `Doc.Renders` : the texts of a document, each break of it laid flat or not;
* `layOut_renders` : the machine lays out such a text;
* `trimLines` : a text without blanks at the ends of its lines;
* `render_eq` : what rendering returns.

Design notes: the texts of a document are given by recursion on it, without a stack and without
a width. What is proved of all of them holds of the one that a width selects.
-/
import FieldLang.Layout.Doc
import Mathlib.Data.List.TakeWhile

namespace FieldLang.Layout

mutual

/-- The texts of a document at an indentation. -/
def Doc.Renders : Doc → Int → List Char → Prop
  | .text s, _, t => t = s.toList
  | .line s hard, indent, t =>
    (hard = false ∧ t = s.toList) ∨ t = '\n' :: List.replicate indent.toNat ' '
  | .nest more doc, indent, t => doc.Renders (indent + more) t
  | .group doc, indent, t => doc.Renders indent t
  | .concat parts, indent, t => RendersAll parts indent t

/-- The texts of documents in a row. -/
def RendersAll : List Doc → Int → List Char → Prop
  | [], _, t => t = []
  | doc :: docs, indent, t =>
    ∃ u v, t = u ++ v ∧ doc.Renders indent u ∧ RendersAll docs indent v

end

/-- The texts of the documents on a stack. -/
def RendersStack : List Frame → List Char → Prop
  | [], t => t = []
  | f :: fs, t => ∃ u v, t = u ++ v ∧ f.doc.Renders f.indent u ∧ RendersStack fs v

theorem rendersStack_framesOf {indent : Int} {flat : Bool} {parts : List Doc} {rest : List Frame}
    {t : List Char} (h : RendersStack (framesOf indent flat parts ++ rest) t) :
    ∃ u v, t = u ++ v ∧ RendersAll parts indent u ∧ RendersStack rest v := by
  induction parts generalizing t with
  | nil => exact ⟨[], t, rfl, rfl, h⟩
  | cons doc docs ih =>
    obtain ⟨u, v, rfl, hu, hv⟩ := h
    obtain ⟨v₁, v₂, rfl, hv₁, hv₂⟩ := ih hv
    exact ⟨u ++ v₁, v₂, (List.append_assoc ..).symm, ⟨u, v₁, rfl, hu, hv₁⟩, hv₂⟩

/-- The machine lays out a text of the documents on its stack. -/
theorem layOut_renders (width column : Int) (stack : List Frame) :
    RendersStack stack (layOut width column stack) := by
  -- whether a group is flat depends on the width, and both ways are texts of it
  fun_induction layOut width column stack with
  | case1 => exact rfl
  | case2 column indent flat s rest ih => exact ⟨_, _, rfl, rfl, ih⟩
  | case3 column indent flat parts rest ih =>
    obtain ⟨u, v, ht, hu, hv⟩ := rendersStack_framesOf ih
    exact ⟨u, v, ht, hu, hv⟩
  | case4 column indent flat more doc rest ih =>
    obtain ⟨u, v, ht, hu, hv⟩ := ih
    exact ⟨u, v, ht, hu, hv⟩
  | case5 column indent s rest ih => exact ⟨_, _, rfl, .inl ⟨rfl, rfl⟩, ih⟩
  | case6 column indent flat s hard rest hflat ih =>
    exact ⟨'\n' :: List.replicate indent.toNat ' ', _, rfl, .inr rfl, ih⟩
  | case7 column indent doc rest ih =>
    obtain ⟨u, v, ht, hu, hv⟩ := ih
    exact ⟨u, v, ht, hu, hv⟩
  | case8 column indent doc rest flat ih =>
    obtain ⟨u, v, ht, hu, hv⟩ := ih
    exact ⟨u, v, ht, hu, hv⟩

/-! ### Lines -/

/-- The text without blanks at the ends of its lines. -/
def trimLines (t : List Char) : List Char :=
  Text.join '\n' ((Text.split '\n' t).map Text.trimEnd)

/-- Rendering in a positive width returns a text of the document, its lines trimmed. -/
theorem render_eq {width : Int} (hwidth : 0 < width) (doc : Doc) :
    ∃ t, doc.Renders 0 t ∧ doc.render width = .ok (trimLines t) := by
  obtain ⟨u, v, ht, hu, rfl⟩ := layOut_renders width 0 [⟨0, false, doc⟩]
  rw [List.append_nil] at ht
  refine ⟨u, hu, ?_⟩
  rw [Doc.render, if_neg (by omega), ht]
  rfl

theorem split_of_not_mem {c : Char} {line : List Char} (h : c ∉ line) :
    Text.split c line = [line] := by
  induction line with
  | nil => rfl
  | cons d line ih =>
    obtain ⟨hd, hline⟩ := not_or.mp (fun h' => h (List.mem_cons.mpr h'))
    rw [Text.split, if_neg (Ne.symm hd), ih hline]

theorem split_append {c : Char} {line rest : List Char} (h : c ∉ line) :
    Text.split c (line ++ c :: rest) = line :: Text.split c rest := by
  induction line with
  | nil => rw [List.nil_append, Text.split, if_pos rfl]
  | cons d line ih =>
    obtain ⟨hd, hline⟩ := not_or.mp (fun h' => h (List.mem_cons.mpr h'))
    rw [List.cons_append, Text.split, if_neg (Ne.symm hd), ih hline]

/-- Joined lines are split where they were joined. -/
theorem split_join {lines : List (List Char)} (hlines : ∀ l ∈ lines, '\n' ∉ l) (hne : lines ≠ []) :
    Text.split '\n' (Text.join '\n' lines) = lines := by
  induction lines with
  | nil => exact absurd rfl hne
  | cons line lines ih =>
    obtain ⟨hline, hlines⟩ := List.forall_mem_cons.mp hlines
    cases lines with
    | nil => exact split_of_not_mem hline
    | cons line' lines =>
      rw [Text.join, split_append hline, ih hlines (List.cons_ne_nil _ _)]
      exact List.cons_ne_nil _ _

theorem trimLines_of_not_mem {line : List Char} (h : '\n' ∉ line) :
    trimLines line = Text.trimEnd line := by
  rw [trimLines, split_of_not_mem h]
  rfl

theorem trimLines_append {line rest : List Char} (h : '\n' ∉ line) :
    trimLines (line ++ '\n' :: rest) = Text.trimEnd line ++ '\n' :: trimLines rest := by
  rw [trimLines, split_append h, List.map_cons, Text.join]
  · rfl
  · intro h
    exact Text.split_ne_nil _ _ (List.map_eq_nil_iff.mp h)

/-- What trimming takes off the end of a line is blank. -/
theorem exists_trimEnd (line : List Char) :
    ∃ blanks, line = Text.trimEnd line ++ blanks ∧ ∀ c ∈ blanks, Text.isBlank c = true := by
  refine ⟨(line.reverse.takeWhile Text.isBlank).reverse, ?_, fun c hc => ?_⟩
  · rw [Text.trimEnd, ← List.reverse_append, List.takeWhile_append_dropWhile, List.reverse_reverse]
  · exact List.mem_takeWhile_imp (List.mem_reverse.mp hc)

theorem not_mem_trimEnd {c : Char} {line : List Char} (h : c ∉ line) : c ∉ Text.trimEnd line := by
  obtain ⟨blanks, hline, -⟩ := exists_trimEnd line
  rw [hline] at h
  exact fun hc => h (List.mem_append_left _ hc)

/-- Trimming begins behind the last character that is no blank. -/
theorem trimEnd_append_cons (front : List Char) {c : Char} (hc : Text.isBlank c = false)
    (back : List Char) : Text.trimEnd (front ++ c :: back) = front ++ c :: Text.trimEnd back := by
  rw [Text.trimEnd, Text.trimEnd, List.reverse_append, List.reverse_cons, List.append_assoc,
    List.dropWhile_append]
  split
  · next h =>
    rw [List.isEmpty_iff.mp h, List.singleton_append, List.dropWhile_cons_of_neg (by simp [hc])]
    simp
  · simp

/-- Induction over the lines of a text. -/
@[elab_as_elim]
theorem lines_induction {motive : List Char → Prop}
    (last : ∀ line, '\n' ∉ line → motive line)
    (more : ∀ line rest, '\n' ∉ line → motive rest → motive (line ++ '\n' :: rest)) :
    ∀ t, motive t := by
  intro t
  induction hn : t.length using Nat.strongRecOn generalizing t with
  | ind n ih =>
    by_cases h : '\n' ∈ t
    · obtain ⟨line, rest, rfl, hline⟩ := List.eq_append_cons_of_mem h
      rw [List.length_append, List.length_cons] at hn
      exact more line rest hline (ih rest.length (by omega) rest rfl)
    · exact last t h

end FieldLang.Layout