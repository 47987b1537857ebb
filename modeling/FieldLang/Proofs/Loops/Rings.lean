/-
Placeholders, and the rings that they are filled from.

* `fillRuns` : a text with every maximal run of placeholders replaced;
* `Fragment.ring`, `runText` : the items of a loop, and what so many placeholders in a row stand for
  in the copy of its body for one of them;
* `unrollLoop_eq` : a body is repeated with its runs replaced;
* `fillRuns_textAll` : placeholders do not reach across a loop that stands for some text;
* `loops_unroll` : what every loop of a source text stands for.

Design notes: placeholders are filled in once a body is a text, in which the pieces of the body and
what its loops stand for are joined. That an outer placeholder leaves an inner loop alone is thus a
fact about the seams of that text: a run could only go on across a seam if it ends in a placeholder
on one side and begins with one on the other.
-/
import FieldLang.Proofs.Loops.Unrolled
import Mathlib

namespace FieldLang.Loops

/-! ### Runs of placeholders -/

/-- The text with every maximal run of placeholders replaced by what so many of them stand for. -/
def fillRuns (value : Nat → List Char) (text : List Char) : List Char :=
  match text with
  | [] => []
  | c :: rest =>
    if c = '$' then
      value ((rest.takeWhile (· == '$')).length + 1) ++ fillRuns value (rest.dropWhile (· == '$'))
    else c :: fillRuns value rest
termination_by text.length
decreasing_by
  · exact Nat.lt_succ_of_le (List.dropWhile_sublist _).length_le
  · exact Nat.lt_succ_self _

section Runs

variable {value : Nat → List Char} {c : Char} {u v rest : List Char}

theorem fillRuns_nil : fillRuns value [] = [] := by
  rw [fillRuns]

theorem fillRuns_char (hc : c ≠ '$') : fillRuns value (c :: rest) = c :: fillRuns value rest := by
  rw [fillRuns, if_neg hc]

theorem takeWhile_placeholders (k : Nat) (h : rest.head? ≠ some '$') :
    (List.replicate k '$' ++ rest).takeWhile (· == '$') = List.replicate k '$' ∧
      (List.replicate k '$' ++ rest).dropWhile (· == '$') = rest := by
  have hall : ∀ c ∈ List.replicate k '$', (c == '$') = true := by simp
  rw [List.takeWhile_append_of_pos hall, List.dropWhile_append_of_pos hall]
  cases rest with
  | nil => simp
  | cons c rest =>
    have hc : ¬(c == '$') = true := by simpa using h
    rw [List.takeWhile_cons_of_neg (p := (· == '$')) hc,
      List.dropWhile_cons_of_neg (p := (· == '$')) hc, List.append_nil]
    exact ⟨rfl, rfl⟩

/-- A run is replaced as a whole. -/
theorem fillRuns_run (k : Nat) (h : rest.head? ≠ some '$') :
    fillRuns value (List.replicate (k + 1) '$' ++ rest) = value (k + 1) ++ fillRuns value rest := by
  obtain ⟨htake, hdrop⟩ := takeWhile_placeholders k h
  rw [List.replicate_succ, List.cons_append, fillRuns, if_pos rfl, htake, hdrop,
    List.length_replicate]

/-- A text begins with a run of placeholders, which may have none, and goes on without one. -/
theorem exists_run (t : List Char) :
    ∃ k rest, t = List.replicate k '$' ++ rest ∧ rest.head? ≠ some '$' := by
  refine ⟨(t.takeWhile (· == '$')).length, t.dropWhile (· == '$'), ?_, ?_⟩
  · have hrun : t.takeWhile (· == '$') = List.replicate (t.takeWhile (· == '$')).length '$' :=
      List.eq_replicate_of_mem fun c hc => beq_iff_eq.mp (List.mem_takeWhile_imp (p := (· == '$')) hc)
    rw [← hrun, List.takeWhile_append_dropWhile]
  · intro hhead
    have hnot := List.head?_dropWhile_not (· == '$') t
    rw [hhead] at hnot
    exact absurd hnot (by simp)

/-- Induction over the runs of a text. -/
@[elab_as_elim]
theorem runs_induction {motive : List Char → Prop} (nil : motive [])
    (char : ∀ c rest, c ≠ '$' → motive rest → motive (c :: rest))
    (run : ∀ k rest, rest.head? ≠ some '$' → motive rest →
      motive (List.replicate (k + 1) '$' ++ rest)) :
    ∀ t, motive t := by
  intro t
  induction hn : t.length using Nat.strong_induction_on generalizing t with | _ n ih
  subst hn
  obtain ⟨k, rest, rfl, hrest⟩ := exists_run t
  cases k with
  | succ k =>
    refine run k rest hrest (ih rest.length ?_ rest rfl)
    rw [List.length_append, List.length_replicate]
    omega
  | zero =>
    cases rest with
    | nil => exact nil
    | cons c rest =>
      have hc : c ≠ '$' := fun hc => hrest (by rw [hc]; rfl)
      exact char c rest hc (ih rest.length (by simp) rest rfl)

/-- A text without placeholders is left alone. -/
theorem fillRuns_of_not_mem (h : '$' ∉ u) : fillRuns value u = u := by
  induction u with
  | nil => exact fillRuns_nil
  | cons c u ih =>
    obtain ⟨hc, hu⟩ := not_or.mp (fun h' => h (List.mem_cons.mpr h'))
    rw [fillRuns_char (Ne.symm hc), ih hu]

/-- Two texts are filled in on their own if no run goes on across the seam. -/
theorem fillRuns_append (h : u.getLast? ≠ some '$' ∨ v.head? ≠ some '$') :
    fillRuns value (u ++ v) = fillRuns value u ++ fillRuns value v := by
  induction u using runs_induction with
  | nil => rw [fillRuns_nil, List.nil_append, List.nil_append]
  | char c rest hc ih =>
    rw [List.cons_append, fillRuns_char hc, fillRuns_char hc, List.cons_append, ih]
    refine h.imp_left fun hlast hrest => hlast ?_
    rw [List.getLast?_cons, hrest]
    rfl
  | run k rest hrest ih =>
    cases rest with
    | nil =>
      -- the first text ends in a run, so the second one begins with another character
      have hv : v.head? ≠ some '$' := by
        refine h.resolve_left fun hlast => hlast ?_
        rw [List.append_nil, List.getLast?_replicate, if_neg (Nat.succ_ne_zero k)]
      rw [List.append_nil, fillRuns_run k hv]
      have halone : fillRuns value (List.replicate (k + 1) '$' ++ []) =
          value (k + 1) ++ fillRuns value [] := fillRuns_run k (by simp)
      rw [List.append_nil, fillRuns_nil, List.append_nil] at halone
      rw [halone]
    | cons c rest =>
      have hseam : (c :: rest).getLast? ≠ some '$' ∨ v.head? ≠ some '$' := by
        refine h.imp_left fun hlast hrest => hlast ?_
        rw [List.getLast?_append, hrest]
        rfl
      rw [List.append_assoc, fillRuns_run k (by simpa using hrest), fillRuns_run k hrest, ih hseam,
        List.append_assoc]

/-- What is filled in leaves no placeholder if no run stands for a text with one. -/
theorem not_mem_fillRuns (h : ∀ k, '$' ∉ value k) : '$' ∉ fillRuns value u := by
  induction u using runs_induction with
  | nil =>
    rw [fillRuns_nil]
    exact List.not_mem_nil
  | char c rest hc ih =>
    rw [fillRuns_char hc, List.mem_cons, not_or]
    exact ⟨Ne.symm hc, ih⟩
  | run k rest hrest ih =>
    rw [fillRuns_run k hrest, List.mem_append, not_or]
    exact ⟨h (k + 1), ih⟩

/-- Filling in takes three placeholders of a run at a time, and then the one or two that are left. -/
theorem fill_run (current next afterNext : List Char) (k : Nat) (h : rest.head? ≠ some '$') :
    fill current next afterNext (List.replicate k '$' ++ rest) =
      (List.replicate (k / 3) afterNext).flatten ++
        (if k % 3 = 0 then [] else if k % 3 = 1 then current else next) ++
        fill current next afterNext rest := by
  induction k using Nat.strong_induction_on with | _ k ih
  match k with
  | 0 => rfl
  | 1 | 2 =>
    cases rest with
    | nil => simp [fill]
    | cons c rest =>
      have hc : c ≠ '$' := fun hc => h (by rw [hc]; rfl)
      simp [fill, hc]
  | k + 3 =>
    have hdiv : (k + 3) / 3 = k / 3 + 1 := Nat.add_div_right k (by decide)
    have hmod : (k + 3) % 3 = k % 3 := Nat.add_mod_right k 3
    have hrun : List.replicate (k + 3) '$' = '$' :: '$' :: '$' :: List.replicate k '$' := rfl
    rw [hrun, List.cons_append, List.cons_append, List.cons_append, fill, ih k (by omega), hdiv,
      hmod, List.replicate_succ, List.flatten_cons, List.append_assoc, List.append_assoc,
      List.append_assoc]

theorem fill_char (current next afterNext : List Char) (hc : c ≠ '$') :
    fill current next afterNext (c :: rest) = c :: fill current next afterNext rest := by
  rw [fill]
  · exact fun _ h _ => hc h
  · exact fun _ h _ => hc h
  · exact hc

theorem fill_eq_fillRuns (current next afterNext : List Char) (t : List Char) :
    fill current next afterNext t = fillRuns (fun k => (List.replicate (k / 3) afterNext).flatten ++
      (if k % 3 = 0 then [] else if k % 3 = 1 then current else next)) t := by
  induction t using runs_induction with
  | nil =>
    rw [fillRuns_nil]
    rfl
  | char c rest hc ih => rw [fill_char _ _ _ hc, fillRuns_char hc, ih]
  | run k rest hrest ih => rw [fill_run _ _ _ _ hrest, fillRuns_run k hrest, ih]

end Runs

/-! ### Rings -/

/-- The items that a loop runs over: the numbers up to its count, or its letters. -/
def Fragment.ring : Fragment → List (List Char)
  | .plain _ => []
  | .counted count _ _ => (List.range count).map fun i => Decimal.natText (i + 1)
  | .lettered letters _ _ => letters.map fun c => [c]

/-- The body of a loop. -/
def Fragment.body : Fragment → List Fragment
  | .plain _ => []
  | .counted _ body _ => body
  | .lettered _ body _ => body

/-- Whether a fragment is a loop. -/
def Fragment.isLoop : Fragment → Bool
  | .plain _ => false
  | .counted _ _ _ | .lettered _ _ _ => true

/-- A fragment stands somewhere in a row, in the bodies of its loops or out of them. -/
inductive Within (f : Fragment) : List Fragment → Prop where
  | here {fs} : f ∈ fs → Within f fs
  | inside {g fs} : g ∈ fs → Within f g.body → Within f fs

/-- The item at a place of a ring. -/
def ringItem (xs : List (List Char)) (i : Nat) : List Char := xs.getD (i % xs.length) []

/-- What `k` placeholders in a row stand for in the copy for the item at place `i`: each three of them
the item two places on, and what is left of them the item there, or the next one for two. -/
def runText (xs : List (List Char)) (i k : Nat) : List Char :=
  (List.replicate (k / 3) (ringItem xs (i + 2))).flatten ++
    (if k % 3 = 0 then [] else ringItem xs (i + k % 3 - 1))

/-- The body once for each item, its placeholders being filled in from the ring. -/
def copies (xs : List (List Char)) (body : List Char) : List Char :=
  (List.range xs.length).flatMap fun i => fillRuns (runText xs i) body

section Rings

variable {xs : List (List Char)} {body : List Char} {f : Fragment} {fs : List Fragment}

/-- A body is repeated with every run replaced by what it stands for. -/
theorem unrollLoop_eq {item : Nat → List Char}
    (hitem : ∀ i, i < xs.length → item i = xs.getD i []) :
    unrollLoop xs.length item body = copies xs body := by
  refine List.flatMap_congr fun i hi => ?_
  have hi : i < xs.length := List.mem_range.mp hi
  have hpos : 0 < xs.length := Nat.lt_of_le_of_lt (Nat.zero_le i) hi
  have hring : ∀ j, item (j % xs.length) = ringItem xs j := fun j => hitem _ (Nat.mod_lt j hpos)
  have hhere : item i = ringItem xs i := by rw [← hring, Nat.mod_eq_of_lt hi]
  rw [fill_eq_fillRuns, hhere, hring, hring]
  congr 1
  funext k
  obtain hk | hk | hk : k % 3 = 0 ∨ k % 3 = 1 ∨ k % 3 = 2 := by omega
  · rw [runText, hk]
    rfl
  · rw [runText, hk]
    rfl
  · rw [runText, hk]
    rfl

theorem ring_counted (count : Nat) (fs : List Fragment) (offset i : Nat)
    (hi : i < (Fragment.counted count fs offset).ring.length) :
    Decimal.natText (i + 1) = (Fragment.counted count fs offset).ring.getD i [] := by
  have hi : i < count := by simpa [Fragment.ring] using hi
  simp [Fragment.ring, List.getD_eq_getElem?_getD, hi]

theorem ring_lettered (letters : List Char) (fs : List Fragment) (offset i : Nat)
    (hi : i < (Fragment.lettered letters fs offset).ring.length) :
    [letters.getD i ' '] = (Fragment.lettered letters fs offset).ring.getD i [] := by
  have hi : i < letters.length := by simpa [Fragment.ring] using hi
  simp [Fragment.ring, List.getD_eq_getElem?_getD, hi]

/-- A loop stands for its body once for each of its items. -/
theorem text_loop (h : f.isLoop = true) : f.text = copies f.ring (textAll f.body) := by
  match f with
  | .counted count fs offset =>
    have hlength : count = (Fragment.counted count fs offset).ring.length := by
      simp [Fragment.ring]
    rw [Fragment.text, ← unrollLoop_eq (ring_counted count fs offset), ← hlength]
    rfl
  | .lettered letters fs offset =>
    have hlength : letters.length = (Fragment.lettered letters fs offset).ring.length := by
      simp [Fragment.ring]
    rw [Fragment.text, ← unrollLoop_eq (ring_lettered letters fs offset), ← hlength]
    rfl

/-- The body of a tidy loop is tidy, and no placeholder is an item of it. -/
theorem Tidy.of_mem (h : Tidy fs) (hf : f ∈ fs) : Tidy f.body ∧ ∀ x ∈ f.ring, '$' ∉ x := by
  induction h with
  | nil => cases hf
  | plain _ _ _ _ ih =>
    rcases List.mem_cons.mp hf with rfl | hf
    · exact ⟨.nil, nofun⟩
    · exact ih hf
  | counted hbody _ _ ih =>
    rcases List.mem_cons.mp hf with rfl | hf
    · refine ⟨hbody, fun x hx hmem => ?_⟩
      obtain ⟨i, -, rfl⟩ := List.mem_map.mp hx
      exact absurd (Decimal.isDigit_of_mem_natText hmem) (by decide)
    · exact ih hf
  | lettered _ hletters hbody _ _ ih =>
    rcases List.mem_cons.mp hf with rfl | hf
    · refine ⟨hbody, fun x hx hmem => ?_⟩
      obtain ⟨c, hc, rfl⟩ := List.mem_map.mp hx
      obtain rfl := List.mem_singleton.mp hmem
      exact absurd (hletters _ hc) (by decide)
    · exact ih hf

theorem Tidy.of_within (h : Tidy fs) (hf : Within f fs) :
    Tidy f.body ∧ ∀ x ∈ f.ring, '$' ∉ x := by
  induction hf with
  | here hf => exact h.of_mem hf
  | inside hg _ ih => exact ih (h.of_mem hg).1

theorem not_mem_ringItem (h : ∀ x ∈ xs, '$' ∉ x) (i : Nat) : '$' ∉ ringItem xs i := by
  rw [ringItem, List.getD_eq_getElem?_getD]
  cases hget : xs[i % xs.length]? with
  | none => exact List.not_mem_nil
  | some x => exact h x (List.mem_of_getElem? hget)

/-- What the runs of a loop stand for holds no placeholder. -/
theorem not_mem_runText (h : ∀ x ∈ xs, '$' ∉ x) (i k : Nat) : '$' ∉ runText xs i k := by
  rw [runText, List.mem_append, not_or]
  constructor
  · intro hmem
    obtain ⟨x, hx, hmem⟩ := List.mem_flatten.mp hmem
    rw [List.eq_of_mem_replicate hx] at hmem
    exact not_mem_ringItem h _ hmem
  · split
    · exact List.not_mem_nil
    · exact not_mem_ringItem h _

theorem not_mem_copies (h : ∀ x ∈ xs, '$' ∉ x) : '$' ∉ copies xs body := by
  intro hmem
  obtain ⟨i, -, hmem⟩ := List.mem_flatMap.mp hmem
  exact not_mem_fillRuns (not_mem_runText h i) hmem

/-- No placeholder is left in what a loop stands for. -/
theorem Tidy.not_mem_text (h : Tidy fs) (hf : Within f fs) (hloop : f.isLoop = true) :
    '$' ∉ f.text := by
  rw [text_loop hloop]
  exact not_mem_copies (h.of_within hf).2

/-! ### Seams -/

/-- A fragment of a body in the copy for the item at place `i`: the placeholders of a piece of text
are filled in, and what a loop stands for is copied. -/
def Fragment.copied (xs : List (List Char)) (i : Nat) (f : Fragment) : List Char :=
  if f.isLoop then f.text else fillRuns (runText xs i) f.text

/-- What a loop stands for does not go on a run of placeholders before it, if it is some text. -/
theorem Tidy.head?_text_ne (h : Tidy (f :: fs)) (hloop : f.isLoop = true) (hsome : f.text ≠ [])
    (v : List Char) : (f.text ++ v).head? ≠ some '$' := by
  intro hhead
  have hnot := h.not_mem_text (.here (List.mem_cons_self ..)) hloop
  obtain ⟨c, rest, hc⟩ := List.exists_cons_of_ne_nil hsome
  rw [hc] at hhead hnot
  cases hhead
  exact hnot (List.mem_cons_self ..)

/-- What a loop stands for is copied, and the rest of the body is filled in on its own. -/
theorem Tidy.fillRuns_loop (h : Tidy (f :: fs)) (hloop : f.isLoop = true) (i : Nat) :
    fillRuns (runText xs i) (textAll (f :: fs)) =
      f.copied xs i ++ fillRuns (runText xs i) (textAll fs) := by
  have hnot := h.not_mem_text (.here (List.mem_cons_self ..)) hloop
  have hseam : f.text.getLast? ≠ some '$' := fun hlast => hnot (List.mem_of_getLast? hlast)
  rw [textAll, fillRuns_append (.inl hseam), fillRuns_of_not_mem hnot, Fragment.copied,
    if_pos hloop]

/-- If the loops of a body stand for some text each, no run of placeholders reaches across one. -/
theorem fillRuns_textAll (h : Tidy fs) (hsome : ∀ g ∈ fs, g.isLoop = true → g.text ≠ []) (i : Nat) :
    fillRuns (runText xs i) (textAll fs) = fs.flatMap (Fragment.copied xs i) := by
  induction h with
  | nil => exact fillRuns_nil
  | @plain text gs hne hat hhead htidy ih =>
    -- no piece of text follows another one, so a loop ends this piece
    have hseam : (textAll gs).head? ≠ some '$' := by
      cases gs with
      | nil => exact nofun
      | cons g gs =>
        have hg : g.isLoop = true := by
          cases g with
          | plain more => exact absurd rfl (hhead more)
          | _ => rfl
        exact htidy.head?_text_ne hg (hsome g (by simp) hg) _
    rw [textAll, fillRuns_append (.inr hseam), List.flatMap_cons,
      ih fun g hg => hsome g (List.mem_cons_of_mem _ hg)]
    rfl
  | @counted count body offset gs hbody htidy _ ih =>
    rw [Tidy.fillRuns_loop (.counted hbody htidy) rfl, List.flatMap_cons,
      ih fun g hg => hsome g (List.mem_cons_of_mem _ hg)]
  | @lettered letters body offset gs hne hletters hbody htidy _ ih =>
    rw [Tidy.fillRuns_loop (.lettered hne hletters hbody htidy) rfl, List.flatMap_cons,
      ih fun g hg => hsome g (List.mem_cons_of_mem _ hg)]

end Rings

/-! ### Source texts -/

/-- Whatever a fragment is unrolled to under a policy, is its text. -/
theorem text_of_unroll {policy : Option Policy} {f : Fragment} {t : List Char}
    (h : (f.unroll policy).outcome = .ok t) : t = f.text := by
  have hnone : (f.unroll none).outcome = .ok t := by
    cases policy with
    | none => exact h
    | some p =>
      rw [unroll_some] at h
      exact Reporting.outcome_of_under h
  rw [unroll_none] at hnone
  exact (Except.ok.inj hnone).symm

/-- Unrolling a source text leaves no `@`. A loop anywhere in it is unrolled, if no warning is a
failure, to its body once for each item, every run of placeholders being replaced from the ring of the
items, and no placeholder is left. If all loops of its body stand for some text, its own placeholders
are filled in piece by piece, and what those loops stand for is copied. -/
theorem loops_unroll {source : List Char} {fs : List Fragment} (h : fragments source = .ok fs) :
    (∀ policy t, (expand policy source).outcome = .ok t → '@' ∉ t) ∧
      ∀ f, Within f fs → f.isLoop = true →
        (f.unroll none).outcome = .ok f.text ∧
        (∀ policy t, (f.unroll policy).outcome = .ok t → t = f.text) ∧
        (unrollAll none f.body).outcome = .ok (textAll f.body) ∧
        f.text = copies f.ring (textAll f.body) ∧
        '$' ∉ f.text ∧
        ((∀ g ∈ f.body, g.isLoop = true → g.text ≠ []) →
          f.text = (List.range f.ring.length).flatMap fun i =>
            f.body.flatMap (Fragment.copied f.ring i)) := by
  have htidy : Tidy fs := (written_of_fragments h).2.1
  refine ⟨fun policy t ht => ?_, fun f hf hloop => ?_⟩
  · obtain ⟨fs', hfs', rfl⟩ := exists_fragments_of_expand ht
    cases h.symm.trans hfs'
    exact not_mem_textAll htidy
  · refine ⟨congrArg Reporting.outcome (unroll_none f), fun policy t ht => text_of_unroll ht,
      congrArg Reporting.outcome (unrollAll_none f.body), text_loop hloop,
      htidy.not_mem_text hf hloop, fun hsome => ?_⟩
    rw [text_loop hloop, copies]
    refine List.flatMap_congr fun i _ => ?_
    exact fillRuns_textAll (htidy.of_within hf).1 hsome i

/-- A count whose body holds letters, with placeholders on both sides of them. -/
def countedLetters : Fragment :=
  .counted 2 [.plain ['$'], .lettered ['x', 'y'] [.plain ['$', '$']] 4, .plain ['$', '$', '$', '$']] 0

/-- It is read from a text. What its letters stand for is copied, and of the four placeholders behind
them three stand for the item two places on. -/
theorem countedLetters_unroll :
    fragments "@2\x7b$@xy\x7b$$\x7d$$$$\x7d".toList = .ok [countedLetters] ∧
      (countedLetters.unroll none).outcome = .ok "1yx112yx22".toList ∧
      '$' ∉ countedLetters.text := by
  have hfs : fragments "@2\x7b$@xy\x7b$$\x7d$$$$\x7d".toList = .ok [countedLetters] := by
    cbv
  obtain ⟨hunroll, -, -, -, hnot, hpieces⟩ :=
    (loops_unroll hfs).2 countedLetters (.here (List.mem_singleton_self _)) rfl
  refine ⟨hfs, ?_, hnot⟩
  rw [hunroll, hpieces ?_]
  · cbv
  · intro g hg hloop
    simp only [countedLetters, Fragment.body, List.mem_cons, List.not_mem_nil, or_false] at hg
    rcases hg with rfl | rfl | rfl
    · cases hloop
    · decide
    · cases hloop

end FieldLang.Loops
