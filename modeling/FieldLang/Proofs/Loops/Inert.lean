/-
Texts that unrolling leaves alone.

* `Inert` : a text without loops and without qualifiers;
* `expand_of_not_mem`, `expand_inert` : unrolling copies such a text, and without loops it only drops
  qualifiers.

Design notes: a qualifier is a word with a point behind it. In the texts that programs are
written as, a point only follows a digit, and that is what survives putting texts together.
-/
import FieldLang.Loops.Unroll
import FieldLang.Proofs.Layout.Rendering

namespace FieldLang.Loops

/-- No loop begins in the text, and every point follows a digit. -/
structure Inert (t : List Char) : Prop where
  noLoop : '@' ∉ t
  point : ∀ u v, t = u ++ '.' :: v → ∃ d, u.getLast? = some d ∧ d.isDigit = true

namespace Inert

variable {u v : List Char}

theorem of_not_mem (hloop : '@' ∉ u) (hpoint : '.' ∉ u) : Inert u := by
  refine ⟨hloop, ?_⟩
  rintro a b rfl
  exact absurd (by simp) hpoint

theorem append (hu : Inert u) (hv : Inert v) : Inert (u ++ v) := by
  refine ⟨?_, fun a b h => ?_⟩
  · rw [List.mem_append]
    rintro (h | h)
    · exact hu.noLoop h
    · exact hv.noLoop h
  · rcases List.append_eq_append_iff.mp h with ⟨c, rfl, hc⟩ | ⟨c, rfl, hc⟩
    · obtain ⟨d, hd, hdigit⟩ := hv.point c b hc
      refine ⟨d, ?_, hdigit⟩
      rw [List.getLast?_append, hd]
      rfl
    · cases c with
      | nil =>
        -- the point would be the first character of `v`, with nothing before it
        obtain ⟨d, hd, -⟩ := hv.point [] b hc.symm
        cases hd
      | cons p c =>
        obtain ⟨rfl, rfl⟩ := List.cons.inj hc
        exact hu.point a c rfl

theorem of_append_left (h : Inert (u ++ v)) : Inert u := by
  refine ⟨fun hm => h.noLoop (List.mem_append_left _ hm), ?_⟩
  rintro a b rfl
  exact h.point a (b ++ v) (by simp)

/-- A text is inert behind a character that is no digit. -/
theorem of_append_cons {c : Char} (h : Inert (u ++ c :: v)) (hc : c.isDigit = false) : Inert v := by
  refine ⟨fun hm => h.noLoop (List.mem_append_right _ (List.mem_cons_of_mem _ hm)), ?_⟩
  rintro a b rfl
  obtain ⟨d, hd, hdigit⟩ := h.point (u ++ c :: a) b (by simp)
  cases ha : a.getLast? with
  | none =>
    rw [List.getLast?_append, List.getLast?_cons, ha] at hd
    cases hd
    exact absurd (hc.symm.trans hdigit) (by decide)
  | some d' =>
    rw [List.getLast?_append, List.getLast?_cons, ha] at hd
    cases hd
    exact ⟨d', rfl, hdigit⟩

theorem trimEnd (h : Inert u) : Inert (Text.trimEnd u) := by
  obtain ⟨blanks, hu, -⟩ := Layout.exists_trimEnd u
  rw [hu] at h
  exact h.of_append_left

/-- Trimming the lines of a text leaves it inert. -/
theorem trimLines (h : Inert u) : Inert (Layout.trimLines u) := by
  induction u using Layout.lines_induction with
  | last line hline =>
    rw [Layout.trimLines_of_not_mem hline]
    exact h.trimEnd
  | more line rest hline ih =>
    have hbreak : Inert ['\n'] := .of_not_mem (by decide) (by decide)
    rw [Layout.trimLines_append hline]
    exact h.of_append_left.trimEnd.append (hbreak.append (ih (h.of_append_cons (by decide))))

end Inert

/-- Without loops there is one fragment, the text itself. -/
theorem read_of_not_mem {t : List Char} (h : '@' ∉ t) (depth offset : Nat) :
    ∃ r, read false depth offset t = .ok r ∧ r.rest = [] ∧
      r.fragments = if t = [] then [] else [.plain t] := by
  induction t generalizing depth offset with
  | nil =>
    refine ⟨.nothing [], ?_, rfl, rfl⟩
    rw [read]
  | cons c t ih =>
    obtain ⟨hc, ht⟩ := not_or.mp (fun h' => h (List.mem_cons.mpr h'))
    obtain ⟨r, hr, hrest, hfragments⟩ := ih ht
      (if c = '\x7b' then depth + 1 else if c = '\x7d' then depth - 1 else depth) (offset + 1)
    refine ⟨r.char c, ?_, hrest, ?_⟩
    · rw [read, if_neg (Ne.symm hc), if_neg (by simp)]
      simp only [hr]
      rfl
    · show consChar c r.fragments = _
      rw [hfragments]
      cases t with
      | nil => rfl
      | cons d t => rfl

/-- Nothing is dropped from a text in which every point follows a digit. -/
theorem dropQualifier_eq {t : List Char} (h : ∀ u v, t ≠ u ++ 'M' :: 'a' :: 't' :: 'h' :: '.' :: v) :
    dropQualifier t = t := by
  induction t with
  | nil => rfl
  | cons c t ih =>
    rw [dropQualifier.eq_def]
    split
    · next rest heq => exact absurd heq (h [] rest)
    · next heq =>
      obtain ⟨rfl, rfl⟩ := List.cons.inj heq
      rw [ih fun u v hu => h (c :: u) v (by rw [hu]; rfl)]
    · next heq => cases heq

theorem Inert.dropQualifier {t : List Char} (h : Inert t) : dropQualifier t = t := by
  refine dropQualifier_eq fun u v ht => ?_
  obtain ⟨d, hd, hdigit⟩ := h.point (u ++ ['M', 'a', 't', 'h']) v (by simp [ht])
  rw [List.getLast?_append] at hd
  cases hd
  exact absurd hdigit (by decide)

/-- Without loops, unrolling drops the qualifiers and reports nothing. -/
theorem expand_of_not_mem {t : List Char} (h : '@' ∉ t) (policy : Option Policy) :
    expand policy t = ⟨[], .ok (dropQualifier t)⟩ := by
  obtain ⟨r, hr, hrest, hfragments⟩ := read_of_not_mem h 0 0
  have hf : fragments t = .ok (if t = [] then [] else [.plain t]) := by
    rw [fragments, hr, ← hfragments]
    simp only [bind, Except.bind]
    rw [hrest]
    rfl
  rw [expand, hf]
  by_cases ht : t = []
  · subst ht
    rfl
  · rw [if_neg ht]
    simp [Reporting.ofExcept, unrollAll, Fragment.unroll]

/-- Unrolling copies an inert text and reports nothing. -/
theorem expand_inert {t : List Char} (h : Inert t) (policy : Option Policy) :
    expand policy t = ⟨[], .ok t⟩ := by
  rw [expand_of_not_mem h.noLoop, h.dropQualifier]

end FieldLang.Loops
