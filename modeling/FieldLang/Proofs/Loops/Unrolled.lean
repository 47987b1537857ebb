/-
What unrolling makes of fragments.

* `Fragment.text`, `Fragment.warnings` : the text that a fragment stands for, and what it is warned
  about, on their own;
* `expand_none`, `expand_some` : unrolling reports these warnings under its policy, and then gives this text;
* `expand_error` : it fails for a loop that cannot be read, or for a warning;
* `mem_warningsAll` : the warnings are of the unrolling, and at the loops of the source text;
* `expand_expand` : unrolling a text once more only drops the qualifiers that have come up in it.

Design notes: the body of a loop is unrolled once, however often it is repeated. So the warnings of
a fragment do not depend on a count, and those of a body come before those of its loop.
-/
import FieldLang.Loops.Unroll
import FieldLang.Proofs.Diagnostic.Filter
import FieldLang.Proofs.Loops.Grammar
import FieldLang.Proofs.Loops.Inert

namespace FieldLang.Loops

/-! ### Texts and warnings -/

mutual

/-- The text that a fragment stands for. -/
def Fragment.text : Fragment → List Char
  | .plain text => dropQualifier text
  | .counted count body _ =>
    unrollLoop count (fun i => Decimal.natText (i + 1)) (textAll body)
  | .lettered letters body _ =>
    unrollLoop letters.length (fun i => [letters.getD i ' ']) (textAll body)

/-- The text that a row of fragments stands for. -/
def textAll : List Fragment → List Char
  | [] => []
  | f :: fs => f.text ++ textAll fs

end

/-- The warning about a loop over letters in whose body, unrolled, there is no placeholder. -/
def unusedLetterWarning (letters : List Char) (offset : Nat) : Diagnostic where
  warning := .unusedLetter
  text := "Body of macro '@" ++ String.ofList letters ++ "' never uses a '$' placeholder"
  position := some offset

/-- The warning about a loop over letters that are not all different. -/
def repeatedLetterWarning (letters : List Char) (offset : Nat) : Diagnostic where
  warning := .repeatedLetter
  text := "Macro '@" ++ String.ofList letters ++ "' repeats a letter"
  position := some offset

mutual

/-- The warnings about a fragment: those about its body, however often it is repeated, then that about
its placeholders, and then that about its letters. -/
def Fragment.warnings : Fragment → List Diagnostic
  | .plain _ => []
  | .counted _ body _ => warningsAll body
  | .lettered letters body offset =>
    warningsAll body ++
      (if '$' ∉ textAll body then [unusedLetterWarning letters offset] else []) ++
      (if ¬letters.Nodup then [repeatedLetterWarning letters offset] else [])

/-- The warnings about a row of fragments. -/
def warningsAll : List Fragment → List Diagnostic
  | [] => []
  | f :: fs => f.warnings ++ warningsAll fs

end

/-- The warnings about the loops of a source text. -/
def sourceWarnings (source : List Char) : List Diagnostic :=
  match fragments source with
  | .ok fs => warningsAll fs
  | .error _ => []

/-- The failure of the unrolling that a diagnostic becomes. -/
def promotedLoop (d : Diagnostic) : LoopError := ⟨.promoted d, d.position⟩

theorem letterWarnings_eq (letters body : List Char) (offset : Nat) :
    letterWarnings letters body offset =
      (if '$' ∉ body then [unusedLetterWarning letters offset] else []) ++
        (if ¬letters.Nodup then [repeatedLetterWarning letters offset] else []) := by
  have hbody : "Body of macro '@" = "Body of macro " ++ "'@" := by decide
  have hnever : "' never uses a '$' placeholder" = "'" ++ " never uses a '$' placeholder" := by decide
  have hmacro : "Macro '@" = "Macro " ++ "'@" := by decide
  have hrepeats : "' repeats a letter" = "'" ++ " repeats a letter" := by decide
  rw [letterWarnings, unusedLetterWarning, repeatedLetterWarning, ite_not, ite_not, hbody, hnever,
    hmacro, hrepeats]
  simp only [String.append_assoc]

theorem reportAll_none (ds : List Diagnostic) : reportAll none ds = ⟨ds, .ok ()⟩ := by
  induction ds with
  | nil => rfl
  | cons d ds ih =>
    rw [reportAll, ih]
    rfl

theorem reportAll_some (p : Policy) (ds : List Diagnostic) :
    reportAll (some p) ds = (reportAll none ds).under p promotedLoop := by
  rw [reportAll_none]
  induction ds with
  | nil => rfl
  | cons d ds ih =>
    rw [reportAll, ih]
    rfl

mutual

theorem unroll_none (f : Fragment) : f.unroll none = ⟨f.warnings, .ok f.text⟩ := by
  match f with
  | .plain _ => simp [Fragment.unroll, Fragment.warnings, Fragment.text]
  | .counted _ body _ =>
    simp [Fragment.unroll, Fragment.warnings, Fragment.text, unrollAll_none body]
  | .lettered _ body _ =>
    simp [Fragment.unroll, Fragment.warnings, Fragment.text, unrollAll_none body, reportAll_none,
      letterWarnings_eq]

theorem unrollAll_none (fs : List Fragment) :
    unrollAll none fs = ⟨warningsAll fs, .ok (textAll fs)⟩ := by
  match fs with
  | [] => simp [unrollAll, warningsAll, textAll]
  | f :: fs => simp [unrollAll, warningsAll, textAll, unroll_none f, unrollAll_none fs]

end

mutual

theorem unroll_some (p : Policy) (f : Fragment) :
    f.unroll (some p) = (f.unroll none).under p promotedLoop := by
  match f with
  | .plain _ => rfl
  | .counted _ body _ =>
    rw [Fragment.unroll, Fragment.unroll, Reporting.under_bind, unrollAll_some p body]
    rfl
  | .lettered _ body _ =>
    rw [Fragment.unroll, Fragment.unroll, Reporting.under_bind, unrollAll_some p body]
    refine Reporting.bind_congr fun text _ => ?_
    rw [Reporting.under_bind, reportAll_some]
    rfl

theorem unrollAll_some (p : Policy) (fs : List Fragment) :
    unrollAll (some p) fs = (unrollAll none fs).under p promotedLoop := by
  match fs with
  | [] => rfl
  | f :: fs =>
    rw [unrollAll, unrollAll, Reporting.under_bind, unroll_some p f]
    refine Reporting.bind_congr fun text _ => ?_
    rw [Reporting.under_bind, unrollAll_some p fs]
    rfl

end

/-- Without a policy, all warnings about the loops of a text are reported. -/
theorem expand_none (source : List Char) :
    expand none source = ⟨sourceWarnings source, (fragments source).map textAll⟩ := by
  rw [expand, sourceWarnings, Reporting.ofExcept]
  cases fragments source with
  | error e => rfl
  | ok fs =>
    show unrollAll none fs = _
    rw [unrollAll_none]
    rfl

/-- Under a policy, they are reported under it. -/
theorem expand_some (p : Policy) (source : List Char) :
    expand (some p) source = (expand none source).under p promotedLoop := by
  rw [expand, expand, Reporting.under_bind, Reporting.under_ofExcept]
  exact Reporting.bind_congr fun fs _ => unrollAll_some p fs

/-- A text that is not unrolled has a loop that cannot be read, or a warning that is promoted. -/
theorem expand_error {policy : Option Policy} {source : List Char} {e : LoopError}
    (h : (expand policy source).outcome = .error e) :
    FaultIn 0 source e ∨ ∃ d, e = promotedLoop d := by
  have hnone : ∀ e', (expand none source).outcome = .error e' → FaultIn 0 source e' := by
    intro e' h'
    rw [expand_none] at h'
    cases hf : fragments source with
    | ok fs =>
      rw [hf] at h'
      cases h'
    | error e'' =>
      rw [hf] at h'
      cases h'
      exact faultIn_of_fragments hf
  cases policy with
  | none => exact .inl (hnone e h)
  | some p =>
    rw [expand_some] at h
    obtain h | ⟨d, -, rfl⟩ := Reporting.error_of_under h
    · exact .inl (hnone e h)
    · exact .inr ⟨d, rfl⟩

/-! ### Where the warnings are -/

/-- The warnings about the fragments of a text are of the unrolling, and at its loops. -/
theorem mem_warningsAll {offset : Nat} {fs : List Fragment} {t : List Char}
    (h : WrittenAs offset fs t) {d : Diagnostic} (hd : d ∈ warningsAll fs) :
    d.warning.stage = .unrolling ∧ AtLoop offset t d.position := by
  induction h with
  | nil => cases hd
  | plain _ ih =>
    rw [warningsAll, Fragment.warnings, List.nil_append] at hd
    exact ⟨(ih hd).1, (ih hd).2.append_left⟩
  | @loop offset spec body b f fs t hspec _ _ ihbody ih =>
    have hsplit : '@' :: (spec ++ '{' :: (b ++ '}' :: t)) =
        '@' :: (spec ++ ['{']) ++ (b ++ '}' :: t) := by simp
    -- a warning about the body is at a loop of it
    have hinner : d ∈ warningsAll body → d.warning.stage = .unrolling ∧
        AtLoop offset ('@' :: (spec ++ '{' :: (b ++ '}' :: t))) d.position := by
      intro hmem
      obtain ⟨hstage, hat⟩ := ihbody hmem
      rw [hsplit]
      refine ⟨hstage, .append_left ?_⟩
      rw [show ('@' :: (spec ++ ['{'])).length = spec.length + 2 by simp, ← Nat.add_assoc]
      exact hat.append_right
    rw [warningsAll, List.mem_append] at hd
    rcases hd with hd | hd
    · cases hspec with
      | counted zeros count => exact hinner hd
      | lettered letters =>
        rw [Fragment.warnings, List.mem_append, List.mem_append] at hd
        -- the other warnings are at the loop itself
        rcases hd with (hd | hd) | hd
        · exact hinner hd
        · split at hd
          · cases List.mem_singleton.mp hd
            exact ⟨rfl, 0, rfl, rfl⟩
          · cases hd
        · split at hd
          · cases List.mem_singleton.mp hd
            exact ⟨rfl, 0, rfl, rfl⟩
          · cases hd
    · obtain ⟨hstage, hat⟩ := ih hd
      refine ⟨hstage, ?_⟩
      rw [show '@' :: (spec ++ '{' :: (b ++ '}' :: t)) =
        '@' :: (spec ++ '{' :: (b ++ ['}'])) ++ t by simp]
      refine .append_left ?_
      rwa [show offset + ('@' :: (spec ++ '{' :: (b ++ ['}']))).length =
        offset + spec.length + b.length + 3 by
          simp only [List.length_cons, List.length_append, List.length_nil]; omega]

theorem mem_sourceWarnings {source : List Char} {d : Diagnostic} (h : d ∈ sourceWarnings source) :
    d.warning.stage = .unrolling ∧ ∃ i, d.position = some i ∧ source[i]? = some '@' := by
  rw [sourceWarnings] at h
  cases hfs : fragments source with
  | error e =>
    rw [hfs] at h
    cases h
  | ok fs =>
    rw [hfs] at h
    obtain ⟨hstage, i, hi, hat⟩ := mem_warningsAll (written_of_fragments hfs).2.2 h
    exact ⟨hstage, i, by rw [hi, Nat.zero_add], hat⟩

/-! ### Unrolling once more -/

theorem mem_fill {current next afterNext body : List Char} {c : Char}
    (h : c ∈ fill current next afterNext body) :
    c ∈ body ∨ c ∈ current ∨ c ∈ next ∨ c ∈ afterNext := by
  fun_induction fill current next afterNext body with
  | case1 rest ih | case2 rest _ ih | case3 rest _ _ ih =>
    rcases List.mem_append.mp h with h | h
    · simp [h]
    · rcases ih h with h | h <;> simp [h]
  | case4 d rest _ _ _ ih =>
    rcases List.mem_cons.mp h with rfl | h
    · simp
    · rcases ih h with h | h <;> simp [h]
  | case5 => exact absurd h List.not_mem_nil

theorem mem_unrollLoop {n : Nat} {item : Nat → List Char} {body : List Char} {c : Char}
    (h : c ∈ unrollLoop n item body) : c ∈ body ∨ ∃ i, c ∈ item i := by
  obtain ⟨i, -, hi⟩ := List.mem_flatMap.mp h
  rcases mem_fill hi with h | h | h | h
  · exact .inl h
  · exact .inr ⟨_, h⟩
  · exact .inr ⟨_, h⟩
  · exact .inr ⟨_, h⟩

theorem dropQualifier_sublist (t : List Char) : (dropQualifier t).Sublist t := by
  fun_induction dropQualifier t with
  | case1 rest ih => exact ih.trans (List.drop_sublist 5 ('M' :: 'a' :: 't' :: 'h' :: '.' :: rest))
  | case2 c rest _ ih => exact ih.cons_cons c
  | case3 => exact .slnil

/-- A text is shorter without the qualifiers in it. -/
theorem length_dropQualifier_lt {t : List Char} (h : ['M', 'a', 't', 'h', '.'] <:+: t) :
    (dropQualifier t).length < t.length := by
  fun_induction dropQualifier t with
  | case1 rest ih =>
    have := (dropQualifier_sublist rest).length_le
    simp only [List.length_cons]
    omega
  | case2 c rest hqualifier ih =>
    rcases List.infix_cons_iff.mp h with ⟨v, hv⟩ | h
    · obtain ⟨rfl, rfl⟩ := List.cons.inj hv
      exact (hqualifier v rfl rfl).elim
    · simp only [List.length_cons]
      exact Nat.succ_lt_succ (ih h)
  | case3 => exact absurd (List.eq_nil_of_infix_nil h) (List.cons_ne_nil _ _)

theorem dropQualifier_eq_self_iff {t : List Char} :
    dropQualifier t = t ↔ ¬['M', 'a', 't', 'h', '.'] <:+: t := by
  constructor
  · intro h hinfix
    have := length_dropQualifier_lt hinfix
    rw [h] at this
    exact Nat.lt_irrefl _ this
  · intro h
    refine dropQualifier_eq fun u v ht => h ⟨u, v, ?_⟩
    rw [ht, List.append_assoc]
    rfl

/-- No loop begins in the text that fragments stand for. -/
theorem not_mem_textAll {fs : List Fragment} (h : Tidy fs) : '@' ∉ textAll fs := by
  -- plain text has no loops, and unrolling adds digits and letters to it
  induction h with
  | nil => exact List.not_mem_nil
  | plain _ hloop _ _ ih =>
    rw [textAll, List.mem_append]
    rintro (hmem | hmem)
    · exact hloop ((dropQualifier_sublist _).mem hmem)
    · exact ih hmem
  | counted _ _ ihbody ih =>
    rw [textAll, List.mem_append]
    rintro (hmem | hmem)
    · obtain hmem | ⟨i, hi⟩ := mem_unrollLoop hmem
      · exact ihbody hmem
      · exact absurd (Decimal.isDigit_of_mem_natText hi) (by decide)
    · exact ih hmem
  | @lettered letters _ _ _ _ hletters _ _ ihbody ih =>
    rw [textAll, List.mem_append]
    rintro (hmem | hmem)
    · obtain hmem | ⟨i, hi⟩ := mem_unrollLoop hmem
      · exact ihbody hmem
      · rw [List.mem_singleton, List.getD_eq_getElem?_getD] at hi
        cases hget : letters[i]? with
        | none =>
          rw [hget] at hi
          exact absurd hi (by decide)
        | some c =>
          rw [hget] at hi
          exact absurd (hletters c (List.mem_of_getElem? hget)) (by rw [← show '@' = c from hi]; decide)
    · exact ih hmem

/-- What unrolling gives is the text of the fragments, under whatever policy. -/
theorem exists_fragments_of_expand {policy : Option Policy} {source t : List Char}
    (h : (expand policy source).outcome = .ok t) :
    ∃ fs, fragments source = .ok fs ∧ t = textAll fs := by
  have hnone : (expand none source).outcome = .ok t := by
    cases policy with
    | none => exact h
    | some p =>
      rw [expand_some] at h
      exact Reporting.outcome_of_under h
  rw [expand_none] at hnone
  cases hfs : fragments source with
  | error e =>
    rw [hfs] at hnone
    cases hnone
  | ok fs =>
    rw [hfs] at hnone
    exact ⟨fs, rfl, (Except.ok.inj hnone).symm⟩

/-- The text that unrolling gives holds no loops, so unrolling it once more reports nothing, under
whatever policy, and drops the qualifiers in it. It leaves the text as it is exactly if there are none;
but dropping a qualifier or filling in a placeholder may put one together. -/
theorem expand_expand {policy : Option Policy} {source t : List Char} {ds : List Diagnostic}
    (h : expand policy source = ⟨ds, .ok t⟩) (policy' : Option Policy) :
    expand policy' t = ⟨[], .ok (dropQualifier t)⟩ ∧
      (expand policy' t = ⟨[], .ok t⟩ ↔ ¬['M', 'a', 't', 'h', '.'] <:+: t) := by
  obtain ⟨fs, hfs, rfl⟩ := exists_fragments_of_expand (congrArg Reporting.outcome h)
  have htidy : Tidy fs := (written_of_fragments hfs).2.1
  have hagain := expand_of_not_mem (not_mem_textAll htidy) policy'
  refine ⟨hagain, ?_⟩
  rw [hagain, ← dropQualifier_eq_self_iff]
  simp

/-- A qualifier that is put together by dropping the one inside of it, and is dropped the next time. -/
theorem qualifier_put_together :
    expand none "MaMath.th.x".toList = ⟨[], .ok "Math.x".toList⟩ ∧
      expand none "Math.x".toList ≠ ⟨[], .ok "Math.x".toList⟩ := by
  have hfirst : expand none "MaMath.th.x".toList = ⟨[], .ok "Math.x".toList⟩ :=
    expand_of_not_mem (by decide) none
  exact ⟨hfirst, fun h => (expand_expand hfirst none).2.mp h ⟨[], ['x'], rfl⟩⟩

end FieldLang.Loops
