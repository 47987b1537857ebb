/-
Where the lines of a document are broken.

* `ahead`, `fits_iff` : what is looked at to decide about a group, and what is decided;
* `Laid`, `Step.laid` : no line with a break that is laid flat will be too long;
* `Doc.Plain`, `Moment.Plain` : texts without newlines, indented by no less than nothing;
* `render_lines` : the lines of a rendered text;
* `breaks_when_needed` : which groups are laid flat, and which lines are too long.

Design notes: a group is decided once, by what stands after it up to the next break. That no group
which is decided later makes the line longer is an invariant: while a place to break the line is
laid flat, or will be, all that comes before the next break fits.
-/
import FieldLang.Proofs.Layout.Content

namespace FieldLang.Layout

/-! ### Looking ahead -/

/-- The leaves on a stack, each with whether it is to be laid flat. -/
def marked (stack : List Frame) : List (Bool × Leaf) :=
  stack.flatMap fun f => f.doc.leaves.map fun l => (f.flat, l)

/-- What comes before the next break that is not to be laid flat. -/
def ahead (stack : List Frame) : List Leaf :=
  ((marked stack).takeWhile fun p => p.1 || !p.2.isBreak).map Prod.snd

section Ahead

variable {indent : Int} {flat : Bool} {rest : List Frame}

theorem marked_framesOf (parts : List Doc) :
    marked (framesOf indent flat parts ++ rest) =
      marked (⟨indent, flat, .concat parts⟩ :: rest) := by
  induction parts with
  | nil => rfl
  | cons doc docs ih =>
    simp only [marked, framesOf, List.map_cons, List.cons_append, List.flatMap_cons, Doc.leaves,
      leavesAll, List.map_append, List.append_assoc] at ih ⊢
    rw [ih]

theorem ahead_nil : ahead [] = [] := rfl

theorem ahead_text (s : String) : ahead (⟨indent, flat, .text s⟩ :: rest) = .text s :: ahead rest := by
  cases flat <;> rfl

theorem ahead_concat (parts : List Doc) :
    ahead (⟨indent, flat, .concat parts⟩ :: rest) = ahead (framesOf indent flat parts ++ rest) := by
  rw [ahead, ahead, marked_framesOf]

theorem ahead_line (s : String) (hard : Bool) :
    ahead (⟨indent, true, .line s hard⟩ :: rest) = .line s hard :: ahead rest := rfl

theorem ahead_break (s : String) (hard : Bool) :
    ahead (⟨indent, false, .line s hard⟩ :: rest) = [] := rfl

theorem ahead_flat (doc : Doc) : ahead (⟨indent, true, doc⟩ :: rest) = doc.leaves ++ ahead rest := by
  have hall : ∀ p ∈ doc.leaves.map fun l => (true, l), (p.1 || !p.2.isBreak) = true := by simp
  rw [ahead, marked, List.flatMap_cons, List.takeWhile_append_of_pos hall, List.map_append,
    List.map_map]
  exact congrArg (· ++ ahead rest) (List.map_id _)

/-- Up to the next break, if nothing is to be laid flat. -/
theorem ahead_of_broken (h : ∀ f ∈ rest, f.flat = false) :
    ahead rest = (leavesLeft rest).takeWhile fun l => !l.isBreak := by
  have hmarked : marked rest = (leavesLeft rest).map fun l => (false, l) := by
    induction rest with
    | nil => rfl
    | cons f rest ih =>
      rw [marked, List.flatMap_cons, leavesLeft, List.flatMap_cons, List.map_append,
        h f List.mem_cons_self]
      exact congrArg _ (ih fun g hg => h g (List.mem_cons_of_mem _ hg))
  rw [ahead, hmarked, List.takeWhile_map, List.map_map]
  exact List.map_id _

end Ahead

/-- Leaves fit behind one that is not a hard break if they fit with it. -/
theorem fitting_cons {l : Leaf} (hl : l.isHard = false) (ls : List Leaf) (remaining : Int) :
    ((∀ l' ∈ ls, l'.isHard = false) ∧ columns ls ≤ remaining - l.flat.length) ↔
      (∀ l' ∈ l :: ls, l'.isHard = false) ∧ columns (l :: ls) ≤ remaining := by
  have hsum : columns ls ≤ remaining - l.flat.length ↔ l.flat.length + columns ls ≤ remaining := by
    omega
  rw [List.forall_mem_cons, columns_cons, hsum, hl]
  simp only [true_and]

/-- What comes before the next break fits if none of it is a hard break and the columns suffice. -/
theorem fits_iff (remaining : Int) (stack : List Frame) :
    fits remaining stack = true ↔
      (∀ l ∈ ahead stack, l.isHard = false) ∧ columns (ahead stack) ≤ remaining := by
  fun_induction fits remaining stack with
  | case1 remaining stack h =>
    have := columns_nonneg (ahead stack)
    exact ⟨Bool.noConfusion, fun h' => absurd h'.2 (by omega)⟩
  | case2 remaining h => exact ⟨fun _ => ⟨List.forall_mem_nil _, Int.not_lt.mp h⟩, fun _ => rfl⟩
  | case3 remaining h indent flat s rest ih =>
    rw [ahead_text]
    exact ih.trans (fitting_cons (l := .text s) rfl _ _)
  | case4 remaining h indent flat parts rest ih => rw [ih, ahead_concat]
  | case5 remaining h indent flat more doc rest ih => exact ih
  -- a hard break ends what has to fit, and may not stand in a group that is laid out flat
  | case6 remaining h indent flat s rest =>
    cases flat with
    | false => exact ⟨fun _ => ⟨List.forall_mem_nil _, Int.not_lt.mp h⟩, fun _ => rfl⟩
    | true =>
      rw [ahead_line, List.forall_mem_cons]
      exact ⟨Bool.noConfusion, fun h' => Bool.noConfusion h'.1.1⟩
  | case7 remaining h indent s rest =>
    exact ⟨fun _ => ⟨List.forall_mem_nil _, Int.not_lt.mp h⟩, fun _ => rfl⟩
  | case8 remaining h indent s rest ih =>
    rw [ahead_line]
    exact ih.trans (fitting_cons (l := .line s false) rfl _ _)
  | case9 remaining h indent flat doc rest ih => exact ih

/-- A group fits with what follows it up to the next break, if nothing behind it is to be laid flat. -/
theorem fits_group_iff {remaining indent : Int} {doc : Doc} {rest : List Frame}
    (h : ∀ f ∈ rest, f.flat = false) :
    fits remaining (⟨indent, true, doc⟩ :: rest) = true ↔
      (∀ l ∈ doc.leaves, l.isHard = false) ∧
        columns doc.leaves + columns ((leavesLeft rest).takeWhile fun l => !l.isBreak) ≤ remaining := by
  have hbehind : ∀ l ∈ (leavesLeft rest).takeWhile fun l => !l.isBreak, l.isHard = false := by
    intro l hl
    have hbreak : (!l.isBreak) = true :=
      List.mem_takeWhile_imp (p := fun l : Leaf => !l.isBreak) hl
    exact Leaf.isHard_eq_false ((Bool.not_eq_true' _).mp hbreak)
  rw [fits_iff, ahead_flat, ahead_of_broken h, List.forall_mem_append, columns_append]
  exact and_congr_left' (and_iff_left hbehind)

/-! ### Lines that are not too long -/

/-- What is to be laid flat comes first. -/
def Staged (stack : List Frame) : Prop := stack.Pairwise fun f g => g.flat = true → f.flat = true

/-- There is a place to break that is on the line, or will be. -/
def Moment.Committed (m : Moment) : Prop :=
  (∃ l ∈ m.row.leaves, l.isBreak = true) ∨ ∃ f ∈ m.stack, f.flat = true

/-- What is on the line and what comes before the next break fit. -/
def Moment.Fitting (width : Int) (m : Moment) : Prop :=
  (∀ l ∈ ahead m.stack, l.isHard = false) ∧ m.row.width + columns (ahead m.stack) ≤ width

/-- No line with a break that is laid flat is too long, and none will be. -/
structure Laid (width : Int) (m : Moment) : Prop where
  staged : Staged m.stack
  above : ∀ r ∈ m.above, (∃ l ∈ r.leaves, l.isBreak = true) → r.width ≤ width
  fitting : m.Committed → m.Fitting width

section Laid

variable {width : Int} {m m' : Moment} {above : List Row} {row : Row} {f : Frame}
  {fs rest : List Frame}

theorem not_flat_of_staged (h : Staged (f :: rest)) (hf : f.flat = false) :
    ∀ g ∈ rest, g.flat = false := by
  intro g hg
  by_contra hflat
  rw [(List.pairwise_cons.mp h).1 g hg ((Bool.not_eq_false _).mp hflat)] at hf
  cases hf

/-- Frames in place of one that is laid flat as they are. -/
theorem staged_append (hfs : ∀ g ∈ fs, g.flat = f.flat) (h : Staged (f :: rest)) :
    Staged (fs ++ rest) := by
  obtain ⟨hhead, htail⟩ := List.pairwise_cons.mp h
  refine List.pairwise_append.mpr ⟨?_, htail, fun g hg g' hg' hflat => ?_⟩
  · exact List.pairwise_of_forall_mem_list fun g hg g' hg' hflat => by
      rw [hfs g hg, ← hfs g' hg', hflat]
  · rw [hfs g hg, hhead g' hg' hflat]

theorem committed_append (hfs : ∀ g ∈ fs, g.flat = f.flat)
    (h : (Moment.mk above row (fs ++ rest)).Committed) :
    (Moment.mk above row (f :: rest)).Committed := by
  rcases h with h | ⟨g, hg, hflat⟩
  · exact .inl h
  · rcases List.mem_append.mp hg with hg | hg
    · exact .inr ⟨f, List.mem_cons_self, by rw [← hfs g hg, hflat]⟩
    · exact .inr ⟨g, List.mem_cons_of_mem _ hg, hflat⟩

/-- Frames that are looked at as one is, in its place. -/
theorem Laid.append (h : Laid width ⟨above, row, f :: rest⟩) (hfs : ∀ g ∈ fs, g.flat = f.flat)
    (hahead : ahead (f :: rest) = ahead (fs ++ rest)) : Laid width ⟨above, row, fs ++ rest⟩ where
  staged := staged_append hfs h.staged
  above := h.above
  fitting hcommitted := by
    have := h.fitting (committed_append hfs hcommitted)
    simp only [Moment.Fitting, hahead] at this
    exact this

theorem Laid.replace {g : Frame} (h : Laid width ⟨above, row, f :: rest⟩) (hg : g.flat = f.flat)
    (hahead : ahead (f :: rest) = ahead (g :: rest)) : Laid width ⟨above, row, g :: rest⟩ :=
  have hfs : ∀ g' ∈ [g], g'.flat = f.flat := List.forall_mem_singleton.mpr hg
  h.append hfs hahead

/-- A leaf goes on the line. -/
theorem Laid.push {l : Leaf} (h : Laid width ⟨above, row, f :: rest⟩)
    (hahead : ahead (f :: rest) = l :: ahead rest) (hl : l.isBreak = true → f.flat = true) :
    Laid width ⟨above, row.push l, rest⟩ where
  staged := (List.pairwise_cons.mp h.staged).2
  above := h.above
  fitting hcommitted := by
    have hbefore : (Moment.mk above row (f :: rest)).Committed := by
      rcases hcommitted with ⟨l', hl', hbreak⟩ | ⟨g, hg, hflat⟩
      · rcases List.mem_append.mp hl' with hl' | hl'
        · exact .inl ⟨l', hl', hbreak⟩
        · cases List.mem_singleton.mp hl'
          exact .inr ⟨f, List.mem_cons_self, hl hbreak⟩
      · exact .inr ⟨g, List.mem_cons_of_mem _ hg, hflat⟩
    have hhard : ∀ l' ∈ ahead (f :: rest), l'.isHard = false := (h.fitting hbefore).1
    have hsum : row.width + columns (ahead (f :: rest)) ≤ width := (h.fitting hbefore).2
    rw [hahead] at hhard
    rw [hahead, columns_cons, ← Int.add_assoc, ← Row.width_push] at hsum
    exact ⟨(List.forall_mem_cons.mp hhard).2, hsum⟩

theorem laid_start (width : Int) (doc : Doc) : Laid width (.start doc) where
  staged := List.pairwise_singleton _ _
  above := List.forall_mem_nil _
  fitting hcommitted := by
    rcases hcommitted with ⟨_, hl, _⟩ | ⟨f, hf, hflat⟩
    · exact absurd hl List.not_mem_nil
    · cases List.mem_singleton.mp hf
      cases hflat

theorem Step.laid (h : Step width m m') (hm : Laid width m) : Laid width m' := by
  cases h with
  | text s => exact hm.push (ahead_text s) Bool.noConfusion
  | concat parts =>
    refine hm.append (fun g hg => ?_) (ahead_concat parts)
    obtain ⟨doc, -, rfl⟩ := List.mem_map.mp hg
    rfl
  | nest more doc => exact hm.replace rfl rfl
  | flat s => exact hm.push (ahead_line s false) fun _ => rfl
  | @breakLine above row rest indent flat s hard h =>
    have hflat : flat = false := by
      cases flat with
      | false => rfl
      | true =>
        -- a break that is hard does not fit, so that it is not to be laid flat
        have hhard : hard = false :=
          (hm.fitting (.inr ⟨_, List.mem_cons_self, rfl⟩)).1 (.line s hard) List.mem_cons_self
        exact (h rfl hhard).elim
    subst hflat
    have hrest := not_flat_of_staged hm.staged rfl
    refine ⟨(List.pairwise_cons.mp hm.staged).2, fun r hr hbreak => ?_, fun hcommitted => ?_⟩
    · rcases List.mem_append.mp hr with hr | hr
      · exact hm.above r hr hbreak
      · cases List.mem_singleton.mp hr
        have := (hm.fitting (.inl hbreak)).2
        rwa [ahead_break, columns_nil, Int.add_zero] at this
    · rcases hcommitted with ⟨l, hl, -⟩ | ⟨g, hg, hflat⟩
      · cases hl
      · rw [hrest g hg] at hflat
        cases hflat
  | flatGroup doc => exact hm.replace rfl rfl
  | @group above row rest indent doc =>
    by_cases hfits : fits (width - row.width) (⟨indent, true, doc⟩ :: rest) = true
    · refine ⟨List.pairwise_cons.mpr ⟨fun _ _ _ => hfits, (List.pairwise_cons.mp hm.staged).2⟩,
        hm.above, fun _ => ?_⟩
      obtain ⟨hhard, hcolumns⟩ := (fits_iff _ _).mp hfits
      simp only [Moment.Fitting, hfits]
      exact ⟨hhard, by omega⟩
    · rw [(Bool.not_eq_true _).mp hfits]
      exact hm.replace rfl rfl

/-- A line is not too long if a place to break it was laid flat. -/
theorem Laid.width_le (h : Laid width m) (hstack : m.stack = []) {r : Row} (hr : r ∈ m.rows)
    {l : Leaf} (hl : l ∈ r.leaves) (hbreak : l.isBreak = true) : r.width ≤ width := by
  rcases List.mem_append.mp hr with hr | hr
  · exact h.above r hr ⟨l, hl, hbreak⟩
  · cases List.mem_singleton.mp hr
    have hsum := (h.fitting (.inl ⟨l, hl, hbreak⟩)).2
    rwa [hstack, ahead_nil, columns_nil, Int.add_zero] at hsum

end Laid

/-! ### Plain documents -/

mutual

/-- A document whose texts are without newlines, indented by no less than nothing. -/
def Doc.Plain : Doc → Prop
  | .text s => '\n' ∉ s.toList
  | .line s _ => '\n' ∉ s.toList
  | .nest more doc => 0 ≤ more ∧ doc.Plain
  | .group doc => doc.Plain
  | .concat parts => PlainAll parts

/-- The same of documents in a row. -/
def PlainAll : List Doc → Prop
  | [] => True
  | doc :: docs => doc.Plain ∧ PlainAll docs

end

/-- A line without a newline, indented by no less than nothing. -/
def Row.Plain (r : Row) : Prop := 0 ≤ r.indent ∧ '\n' ∉ r.chars

/-- What is written and what is to be laid out is plain. -/
structure Moment.Plain (m : Moment) : Prop where
  rows : ∀ r ∈ m.rows, r.Plain
  stack : ∀ f ∈ m.stack, 0 ≤ f.indent ∧ f.doc.Plain

section Plain

variable {width : Int} {m m' : Moment} {above : List Row} {row : Row} {f : Frame}
  {fs rest : List Frame}

theorem length_chars {r : Row} (h : r.Plain) : (r.chars.length : Int) = r.width := by
  have hleaves : ((r.leaves.flatMap fun l => l.flat.toList).length : Int) = columns r.leaves := by
    induction r.leaves with
    | nil => rfl
    | cons l ls ih =>
      rw [List.flatMap_cons, List.length_append, columns_cons, ← ih, String.length_toList]
      rfl
  rw [Row.chars, List.length_append, List.length_replicate, Row.width, ← hleaves]
  have := h.1
  omega

theorem plain_framesOf {indent : Int} {flat : Bool} {parts : List Doc} (hindent : 0 ≤ indent)
    (h : PlainAll parts) : ∀ f ∈ framesOf indent flat parts, 0 ≤ f.indent ∧ f.doc.Plain := by
  induction parts with
  | nil => exact List.forall_mem_nil _
  | cons doc docs ih => exact List.forall_mem_cons.mpr ⟨⟨hindent, h.1⟩, ih h.2⟩

theorem plain_start {doc : Doc} (h : doc.Plain) : (Moment.start doc).Plain where
  rows r hr := by
    cases List.mem_singleton.mp hr
    exact ⟨Int.le_refl 0, List.not_mem_nil⟩
  stack := List.forall_mem_singleton.mpr ⟨Int.le_refl 0, h⟩

theorem Moment.Plain.append (h : (Moment.mk above row (f :: rest)).Plain)
    (hfs : 0 ≤ f.indent ∧ f.doc.Plain → ∀ g ∈ fs, 0 ≤ g.indent ∧ g.doc.Plain) :
    (Moment.mk above row (fs ++ rest)).Plain := by
  obtain ⟨hf, hrest⟩ := List.forall_mem_cons.mp h.stack
  exact ⟨h.rows, List.forall_mem_append.mpr ⟨hfs hf, hrest⟩⟩

theorem Moment.Plain.replace {g : Frame} (h : (Moment.mk above row (f :: rest)).Plain)
    (hg : 0 ≤ f.indent ∧ f.doc.Plain → 0 ≤ g.indent ∧ g.doc.Plain) :
    (Moment.mk above row (g :: rest)).Plain :=
  have hfs : 0 ≤ f.indent ∧ f.doc.Plain → ∀ g' ∈ [g], 0 ≤ g'.indent ∧ g'.doc.Plain :=
    fun hf => List.forall_mem_singleton.mpr (hg hf)
  h.append hfs

theorem Moment.Plain.push {l : Leaf} (h : (Moment.mk above row (f :: rest)).Plain)
    (hl : f.doc.Plain → '\n' ∉ l.flat.toList) : (Moment.mk above (row.push l) rest).Plain := by
  obtain ⟨hf, hrest⟩ := List.forall_mem_cons.mp h.stack
  obtain ⟨habove, hrow⟩ := List.forall_mem_append.mp h.rows
  have hrow := List.forall_mem_singleton.mp hrow
  refine ⟨List.forall_mem_append.mpr ⟨habove, List.forall_mem_singleton.mpr ⟨hrow.1, ?_⟩⟩, hrest⟩
  rw [Row.chars_push]
  exact fun hmem => (List.mem_append.mp hmem).elim hrow.2 (hl hf.2)

theorem Step.plain (h : Step width m m') (hm : m.Plain) : m'.Plain := by
  cases h with
  | text s => exact hm.push id
  | flat s => exact hm.push id
  | concat parts => exact hm.append fun hf => plain_framesOf hf.1 hf.2
  | nest more doc => exact hm.replace fun hf => ⟨Int.add_nonneg hf.1 hf.2.1, hf.2.2⟩
  | @breakLine above row rest indent flat s hard h =>
    obtain ⟨hf, hrest⟩ := List.forall_mem_cons.mp hm.stack
    refine ⟨List.forall_mem_append.mpr ⟨hm.rows, List.forall_mem_singleton.mpr ⟨hf.1, ?_⟩⟩, hrest⟩
    rw [Row.chars, List.flatMap_nil, List.append_nil]
    exact fun hmem => absurd (List.eq_of_mem_replicate hmem) (by decide)
  | flatGroup doc => exact hm.replace id
  | group doc => exact hm.replace id

end Plain

/-! ### Rendering -/

section Rendering

variable {width : Int} {doc : Doc} {m last : Moment}

theorem length_trimEnd_le (line : List Char) : (Text.trimEnd line).length ≤ line.length := by
  obtain ⟨blanks, hline, -⟩ := exists_trimEnd line
  rw [congrArg List.length hline, List.length_append]
  exact Nat.le_add_right _ _

/-- The lines of a rendered document are those of the last moment, each trimmed. -/
theorem render_lines (hwidth : 0 < width) (hdoc : doc.Plain) (h : Reaches width (.start doc) last)
    (hstack : last.stack = []) :
    ∃ out, doc.render width = .ok out ∧
      Text.split '\n' out = last.rows.map fun r => Text.trimEnd r.chars := by
  have hplain : last.Plain := h.keeps (plain_start hdoc) fun _ _ hstep => hstep.plain
  exact render_rows hwidth h hstack fun r hr => (hplain.rows r hr).2

/-- What is to be laid out at a moment is the end of the document. -/
theorem leavesLeft_suffix (h : Reaches width (.start doc) m) : leavesLeft m.stack <:+ doc.leaves := by
  obtain ⟨written, -, hleaves⟩ := holds_of_reaches h
  exact ⟨written, hleaves⟩

/-- How a document is laid out in a width: `last` is the last moment, and `out` is the text. -/
structure BreaksWhenNeeded (width : Int) (doc : Doc) (last : Moment) (out : List Char) : Prop where
  reached : Reaches width (.start doc) last
  done : last.stack = []
  rendered : doc.render width = .ok out
  lines : Text.split '\n' out = last.rows.map fun r => Text.trimEnd r.chars
  /-- No place to break is laid flat on a line that is too long. -/
  long : ∀ r ∈ last.rows, width < (Text.trimEnd r.chars).length → ∀ l ∈ r.leaves, l.isBreak = false
  /-- A group that is not in one that is laid flat is laid flat if and only if no break in it is hard
  and it fits with what follows it up to the next break; all of it is then on one line. -/
  group : ∀ above row indent inner rest,
    Reaches width (.start doc) ⟨above, row, ⟨indent, false, .group inner⟩ :: rest⟩ →
    row.chars.length = row.width ∧ inner.leaves ++ leavesLeft rest <:+ doc.leaves ∧
    ∃ flat, Step width ⟨above, row, ⟨indent, false, .group inner⟩ :: rest⟩
        ⟨above, row, ⟨indent, flat, inner⟩ :: rest⟩ ∧
      (flat = true ↔ (∀ l ∈ inner.leaves, l.isHard = false) ∧
        row.width + columns inner.leaves +
          columns ((leavesLeft rest).takeWhile fun l => !l.isBreak) ≤ width) ∧
      (flat = true → ∃ more rows,
        last.rows = above ++ ⟨row.indent, row.leaves ++ inner.leaves ++ more⟩ :: rows)

/-- A plain document is broken where it needs to be, and only there. -/
theorem breaks_when_needed (hwidth : 0 < width) (hdoc : doc.Plain) :
    ∃ last out, BreaksWhenNeeded width doc last out := by
  obtain ⟨last, hlast, hstack⟩ := exists_last width (.start doc)
  obtain ⟨out, hout, hlines⟩ := render_lines hwidth hdoc hlast hstack
  -- what holds at the start and is kept by every step holds wherever the renderer comes
  have hlaid {m} (hm : Reaches width (.start doc) m) : Laid width m :=
    hm.keeps (laid_start width doc) fun _ _ hstep => hstep.laid
  have hplain {m} (hm : Reaches width (.start doc) m) : m.Plain :=
    hm.keeps (plain_start hdoc) fun _ _ hstep => hstep.plain
  refine ⟨last, out, hlast, hstack, hout, hlines, fun r hr hlong l hl => ?_, ?_⟩
  · by_contra hbreak
    have hle := (hlaid hlast).width_le hstack hr hl ((Bool.not_eq_false _).mp hbreak)
    have hchars := length_chars ((hplain hlast).rows r hr)
    have htrim := length_trimEnd_le r.chars
    omega
  · intro above row indent inner rest hm
    have hrow : row.Plain := (hplain hm).rows row (List.mem_append_right _ List.mem_cons_self)
    have hbroken := not_flat_of_staged (hlaid hm).staged rfl
    have hflat : fits (width - row.width) (⟨indent, true, inner⟩ :: rest) = true ↔
        (∀ l ∈ inner.leaves, l.isHard = false) ∧ row.width + columns inner.leaves +
          columns ((leavesLeft rest).takeWhile fun l => !l.isBreak) ≤ width := by
      rw [fits_group_iff hbroken, Int.add_assoc]
      exact and_congr_right' ⟨fun h => by omega, fun h => by omega⟩
    refine ⟨length_chars hrow, leavesLeft_suffix hm, _, .group inner, hflat, fun hfits => ?_⟩
    have hnext : Step width ⟨above, row, ⟨indent, false, .group inner⟩ :: rest⟩
        ⟨above, row, ⟨indent, true, inner⟩ :: rest⟩ := hfits ▸ .group inner
    have hwhole : Reaches width (.start doc) ⟨above, ⟨row.indent, row.leaves ++ inner.leaves⟩, rest⟩ :=
      (hm.tail hnext).trans (reaches_flat inner (hflat.mp hfits).1)
    exact rows_of_reaches (hwhole.last hlast hstack)

/-- A call whose first argument is a pair, in a width in which the pair can be laid flat and the call
cannot. -/
theorem nestedCall_breaks :
    let doc := Doc.bracketed "f(" [Doc.bracketed "(" [.text "x", .text "y"] ")" 2, .text "zeta"] ")" 2
    0 < (9 : Int) ∧ doc.Plain ∧ doc.render 9 = .ok "f(\n  (x, y),\n  zeta\n)".toList ∧
      ∃ last out, BreaksWhenNeeded 9 doc last out := by
  intro doc
  have hdoc : doc.Plain := by
    simp [doc, Doc.bracketed, Doc.joined, Doc.Plain, PlainAll, Doc.space, Doc.softLine]
  exact ⟨by decide, hdoc, by decide +kernel, breaks_when_needed (by decide) hdoc⟩

end Rendering

end FieldLang.Layout
