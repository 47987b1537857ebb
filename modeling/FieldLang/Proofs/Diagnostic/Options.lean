/-
The policies that options ask for.

* `CodeSet.ext` : sets that hold the same codes are equal;
* `codes_of_warningsIn`, `codes_of_ofOptions` : the codes of a policy are those that its options list;
* `ofOptions_congr` : options that list the same codes ask for the same policy.

Design notes: how an option spells its codes, in which order and how often, is lost in the policy. So a
program that is remembered under one spelling is found again under any other.
-/
import FieldLang.Diagnostic.Policy
import FieldLang.Proofs.Except
import Mathlib.Data.List.Sort

namespace FieldLang

/-- Sets that hold the same codes are equal. -/
theorem CodeSet.ext {s t : CodeSet} (h : ∀ c, c ∈ s.codes ↔ c ∈ t.codes) : s = t := by
  obtain ⟨cs, hcs⟩ := s
  obtain ⟨ds, hds⟩ := t
  obtain rfl : cs = ds := hcs.eq_of_mem_iff hds h
  rfl

namespace Policy

variable {c : String} {promote suppress promote' suppress' : Option String} {p p' : Policy}

theorem leastCode?_eq_none {cs : List String} : leastCode? cs = none ↔ cs = [] := by
  cases cs with
  | nil => simp [leastCode?]
  | cons c cs =>
    rw [leastCode?]
    split <;> simp

/-- What an option lists are codes of warnings, and they are all that its set holds. -/
theorem codes_of_warningsIn {list : String} {ws : List Warning} (h : warningsIn list = .ok ws) :
    c ∈ (CodeSet.ofWarnings ws).codes ↔ c ∈ codesIn list.toList := by
  rw [warningsIn] at h
  split at h
  · cases h
  next hleast =>
  cases h
  have hknown := List.filter_eq_nil_iff.mp (leastCode?_eq_none.mp hleast)
  rw [CodeSet.ofWarnings, List.mem_map]
  constructor
  · rintro ⟨w, hw, rfl⟩
    have hlisted := of_decide_eq_true (List.mem_filter.mp hw).2
    simpa using (List.mem_filter.mp hlisted).2
  · intro hc
    have hsome := hknown c hc
    cases hfound : Warning.ofCode? c with
    | none => simp [hfound] at hsome
    | some w =>
      have hcode : w.code = c := by simpa using List.find?_some hfound
      have hlisted : w ∈ Warning.all.filter fun w => (codesIn list.toList).contains w.code :=
        List.mem_filter.mpr ⟨w.mem_all, by simpa [hcode] using hc⟩
      exact ⟨w, List.mem_filter.mpr ⟨w.mem_all, decide_eq_true hlisted⟩, hcode⟩

/-- The codes that an option lists, none if it is not given. -/
def listed (option : Option String) : List String := codesIn (option.getD "").toList

/-- The codes that a policy treats are those that the options list. -/
theorem codes_of_ofOptions (h : ofOptions promote suppress = .ok (some p)) :
    (∀ c, c ∈ p.promoted.codes ↔ c ∈ listed promote) ∧
      ∀ c, c ∈ p.suppressed.codes ↔ c ∈ listed suppress := by
  rw [ofOptions.eq_def] at h
  split at h
  · cases h
  · obtain ⟨promoted, hpromoted, h⟩ := bind_eq_ok.mp h
    obtain ⟨suppressed, hsuppressed, h⟩ := bind_eq_ok.mp h
    cases h
    exact ⟨fun c => codes_of_warningsIn hpromoted, fun c => codes_of_warningsIn hsuppressed⟩

/-- Options that list the same codes ask for the same policy. -/
theorem ofOptions_congr (h : ofOptions promote suppress = .ok (some p))
    (h' : ofOptions promote' suppress' = .ok (some p'))
    (hpromote : ∀ c, c ∈ listed promote ↔ c ∈ listed promote')
    (hsuppress : ∀ c, c ∈ listed suppress ↔ c ∈ listed suppress') : p = p' := by
  obtain ⟨hpromoted, hsuppressed⟩ := codes_of_ofOptions h
  obtain ⟨hpromoted', hsuppressed'⟩ := codes_of_ofOptions h'
  have heq : p.promoted = p'.promoted :=
    CodeSet.ext fun c => (hpromoted c).trans ((hpromote c).trans (hpromoted' c).symm)
  have heq' : p.suppressed = p'.suppressed :=
    CodeSet.ext fun c => (hsuppressed c).trans ((hsuppress c).trans (hsuppressed' c).symm)
  obtain ⟨promoted, suppressed⟩ := p
  obtain ⟨promoted', suppressed'⟩ := p'
  obtain rfl := heq
  obtain rfl := heq'
  rfl

end Policy

end FieldLang
