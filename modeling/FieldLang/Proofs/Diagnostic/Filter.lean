/-
A policy is a filter on what a run reports.

* `Policy.Promotes`, `Policy.kept` : the diagnostics that a policy makes failures of, and those that it
  does not drop;
* `Reporting.under` : a run whose diagnostics are reported once more, under a policy;
* `under_bind`, `under_report`, `under_mapError` : runs under a policy are put together as runs are;
* `under_of_promoted`, `under_of_none_promoted` : such a run ends at the first failure among its
  diagnostics, and keeps of the ones before it what is not dropped;
* `outcome_of_under`, `error_of_under` : what it ends with otherwise is the run's own.

Design notes: a computation is written once, over an optional policy. With the laws of `under` it is
compared with itself: each of its steps under a policy is the same step without one, filtered.
-/
import FieldLang.Diagnostic.Policy

namespace FieldLang

/-- A diagnostic that a policy makes a failure of. -/
def Policy.Promotes (p : Policy) (d : Diagnostic) : Prop :=
  d.warning ∈ p.promoted ∧ d.warning ∉ p.suppressed

/-- The diagnostics that a policy does not drop. -/
def Policy.kept (p : Policy) (ds : List Diagnostic) : List Diagnostic :=
  ds.filter fun d => d.warning ∉ p.suppressed

namespace Reporting

variable {ε ε' α α' β : Type} {p : Policy} {failure : Diagnostic → ε}

/-- Reports diagnostics under a policy, and then ends as it is told. -/
def replay (p : Policy) (failure : Diagnostic → ε) : List Diagnostic → Except ε α → Reporting ε α
  | [], outcome => ⟨[], outcome⟩
  | d :: ds, outcome => do
    report (some p) d failure
    replay p failure ds outcome

/-- The run with its diagnostics reported under a policy. -/
def under (p : Policy) (failure : Diagnostic → ε) (r : Reporting ε α) : Reporting ε α :=
  replay p failure r.reported r.outcome

/-! ### Putting runs together -/

protected theorem bind_assoc (r : Reporting ε α) (f : α → Reporting ε α') (g : α' → Reporting ε β) :
    r >>= f >>= g = r >>= fun a => f a >>= g := by
  obtain ⟨ds, e | a⟩ := r
  · rfl
  · rcases hf : f a with ⟨es, e | b⟩
    · simp [hf]
    · simp [hf]

theorem bind_congr {r : Reporting ε α} {f g : α → Reporting ε β}
    (h : ∀ a, r.outcome = .ok a → f a = g a) : r >>= f = r >>= g := by
  obtain ⟨ds, e | a⟩ := r
  · rfl
  · rw [bind_ok, bind_ok, h a rfl]

theorem under_ofExcept (r : Except ε α) : (ofExcept r).under p failure = ofExcept r := rfl

theorem under_report (d : Diagnostic) : (report none d failure).under p failure =
    report (some p) d failure := by
  show report (some p) d failure >>= (fun _ => ⟨[], .ok ()⟩) = _
  rcases report (some p) d failure with ⟨ds, e | a⟩
  · rfl
  · rw [bind_ok, List.append_nil]

theorem under_bind (r : Reporting ε α) (f : α → Reporting ε β) :
    (r >>= f).under p failure = r.under p failure >>= fun a => (f a).under p failure := by
  obtain ⟨ds, outcome⟩ := r
  -- by induction on what the first run reports: each report comes before both sides
  induction ds with
  | nil => cases outcome <;> rfl
  | cons d ds ih =>
    have hbind : ((⟨d :: ds, outcome⟩ : Reporting ε α) >>= f).under p failure =
        report (some p) d failure >>= fun _ => (⟨ds, outcome⟩ >>= f).under p failure := by
      cases outcome <;> rfl
    rw [hbind, ih]
    exact (Reporting.bind_assoc _ _ _).symm

/-- Failures may be put in another type before the policy is applied or after it. -/
theorem under_mapError {failure' : Diagnostic → ε'} {f : ε → ε'} {r : Reporting ε α}
    (h : ∀ d ∈ r.reported, failure' d = f (failure d)) :
    (r.mapError f).under p failure' = (r.under p failure).mapError f := by
  obtain ⟨ds, outcome⟩ := r
  induction ds with
  | nil => rfl
  | cons d ds ih =>
    have hrest := ih fun e he => h e (List.mem_cons_of_mem d he)
    simp only [under, mapError, replay] at hrest ⊢
    rw [hrest, report, report, h d List.mem_cons_self]
    split
    · rfl
    · split <;> rfl

/-! ### What a policy leaves -/

/-- Diagnostics that are no failures are kept or dropped, and what is behind them is replayed. -/
theorem replay_append {ds : List Diagnostic} (h : ∀ d ∈ ds, ¬p.Promotes d)
    (es : List Diagnostic) (outcome : Except ε α) :
    replay p failure (ds ++ es) outcome =
      ⟨p.kept ds ++ (replay p failure es outcome).reported,
        (replay p failure es outcome).outcome⟩ := by
  induction ds with
  | nil => rfl
  | cons d ds ih =>
    rw [List.cons_append, replay, ih fun e he => h e (List.mem_cons_of_mem d he), report]
    by_cases hsuppressed : d.warning ∈ p.suppressed
    · have hkept : p.kept (d :: ds) = p.kept ds := List.filter_cons_of_neg (by simpa)
      rw [if_pos hsuppressed, hkept]
      rfl
    · have hkept : p.kept (d :: ds) = d :: p.kept ds := List.filter_cons_of_pos (by simpa)
      have hpromoted : d.warning ∉ p.promoted := fun hp => h d List.mem_cons_self ⟨hp, hsuppressed⟩
      rw [if_neg hsuppressed, if_neg hpromoted, hkept]
      rfl

/-- The first failure among the diagnostics ends the run. -/
theorem under_of_promoted {r : Reporting ε α} {before after : List Diagnostic} {d : Diagnostic}
    (hr : r.reported = before ++ d :: after) (hd : p.Promotes d)
    (hbefore : ∀ e ∈ before, ¬p.Promotes e) :
    r.under p failure = ⟨p.kept before, .error (failure d)⟩ := by
  have hfailure : replay p failure (d :: after) r.outcome = ⟨[], .error (failure d)⟩ := by
    rw [replay, report, if_neg hd.2, if_pos hd.1]
    rfl
  rw [under, hr, replay_append hbefore, hfailure, List.append_nil]

/-- Without a failure among the diagnostics the run ends as it does without a policy. -/
theorem under_of_none_promoted {r : Reporting ε α} (h : ∀ d ∈ r.reported, ¬p.Promotes d) :
    r.under p failure = ⟨p.kept r.reported, r.outcome⟩ := by
  have hall : replay p failure (r.reported ++ []) r.outcome = _ := replay_append h [] r.outcome
  rwa [List.append_nil, replay, List.append_nil] at hall

theorem report_error {policy : Option Policy} {d : Diagnostic} {ds : List Diagnostic} {e : ε}
    (h : report policy d failure = ⟨ds, .error e⟩) : e = failure d := by
  cases policy with
  | none => cases h
  | some p =>
    simp only [report] at h
    split at h
    · cases h
    · split at h
      · cases h
        rfl
      · cases h

/-- A policy changes no result. -/
theorem outcome_of_under {r : Reporting ε α} {a : α} (h : (r.under p failure).outcome = .ok a) :
    r.outcome = .ok a := by
  obtain ⟨ds, outcome⟩ := r
  induction ds with
  | nil => exact h
  | cons d ds ih =>
    change (report (some p) d failure >>= fun _ => replay p failure ds outcome).outcome = _ at h
    rcases hd : report (some p) d failure with ⟨es, e | u⟩
    · rw [hd] at h
      cases h
    · rw [hd] at h
      exact ih h

/-- A failure under a policy is one of the run, or what a diagnostic becomes. -/
theorem error_of_under {r : Reporting ε α} {e : ε} (h : (r.under p failure).outcome = .error e) :
    r.outcome = .error e ∨ ∃ d ∈ r.reported, e = failure d := by
  obtain ⟨ds, outcome⟩ := r
  induction ds with
  | nil => exact .inl h
  | cons d ds ih =>
    change (report (some p) d failure >>= fun _ => replay p failure ds outcome).outcome = _ at h
    rcases hd : report (some p) d failure with ⟨es, e' | u⟩
    · rw [hd] at h
      obtain rfl : e' = e := Except.error.inj h
      exact .inr ⟨d, List.mem_cons_self, report_error hd⟩
    · rw [hd] at h
      exact (ih h).imp_right fun ⟨d', hd', he⟩ => ⟨d', List.mem_cons_of_mem d hd', he⟩

end Reporting

end FieldLang
