/-
Warnings about a source text, and policies for them.

* `Diagnostic.failure` : the failure that a warning becomes in its stage;
* `parse_some` : reading under a policy is reading without one, its warnings reported under the policy;
* `parse_none_reported` : what is reported without a policy;
* `parse_policy` : both together, spelled out.
-/
import FieldLang.Proofs.Except
import FieldLang.Proofs.Loops.Unrolled
import FieldLang.Syntax.Parser

namespace FieldLang

/-- The failure that a warning becomes: one of the stage that the warning belongs to. -/
def Diagnostic.failure (d : Diagnostic) : SourceError :=
  match d.warning.stage with
  | .unrolling => .loop ⟨.promoted d, d.position⟩
  | .parsing => .parse ⟨.promoted d, d.position⟩

/-- The failure is worded as the warning is, behind its code, and points where the warning does. -/
theorem Diagnostic.failure_message (d : Diagnostic) :
    d.failure.message = located ("[" ++ d.warning.code ++ "] " ++ d.text) d.position ∧
      d.failure.position = d.position := by
  rw [failure]
  cases d.warning.stage <;> exact ⟨rfl, rfl⟩

/-! ### The stages under a policy -/

theorem expand_stage (p : Policy) (source : List Char) :
    (Loops.expand (some p) source).mapError SourceError.loop =
      ((Loops.expand none source).mapError SourceError.loop).under p Diagnostic.failure := by
  rw [Loops.expand_some]
  refine (Reporting.under_mapError fun d hd => ?_).symm
  rw [Loops.expand_none] at hd
  rw [Diagnostic.failure, (Loops.mem_sourceWarnings hd).1]
  rfl

/-- Without a policy, the warning is about a program that was read and does not end in a result. -/
theorem parseTokens_none (stop : Nat) (ts : List Token) : parseTokens stop none ts =
    ⟨match program stop ts with
      | .ok p => if endsInResult p then [] else [noResultWarning]
      | .error _ => [], program stop ts⟩ := by
  rw [parseTokens]
  cases program stop ts with
  | error e => rfl
  | ok p =>
    simp only [Reporting.ofExcept, Reporting.bind_ok, List.nil_append]
    cases endsInResult p <;> rfl

theorem parseTokens_some (p : Policy) (stop : Nat) (ts : List Token) :
    parseTokens stop (some p) ts =
      (parseTokens stop none ts).under p fun d => ⟨.promoted d, d.position⟩ := by
  rw [parseTokens, parseTokens, Reporting.under_bind, Reporting.under_ofExcept]
  refine Reporting.bind_congr fun program _ => ?_
  cases endsInResult program with
  | true => rfl
  | false =>
    simp only [Bool.not_false, if_true]
    rw [Reporting.under_bind, Reporting.under_report]
    rfl

theorem parseTokens_stage (p : Policy) (stop : Nat) (ts : List Token) :
    (parseTokens stop (some p) ts).mapError SourceError.parse =
      ((parseTokens stop none ts).mapError SourceError.parse).under p Diagnostic.failure := by
  rw [parseTokens_some]
  refine (Reporting.under_mapError fun d hd => ?_).symm
  -- the only warning of this stage is the one about the last statement
  have hd : d = noResultWarning := by
    rw [parseTokens_none] at hd
    simp only at hd
    split at hd
    · split at hd
      · cases hd
      · exact List.mem_singleton.mp hd
    · cases hd
  rw [hd]
  rfl

/-- Reading under a policy is reading without one, with the warnings reported under the policy. -/
theorem parse_some (p : Policy) (source : List Char) :
    parse (some p) source = (parse none source).under p Diagnostic.failure := by
  rw [parse, parse, Reporting.under_bind, expand_stage]
  refine Reporting.bind_congr fun text _ => ?_
  rw [Reporting.under_bind]
  refine Reporting.bind_congr fun ts _ => ?_
  exact parseTokens_stage p text.length ts

/-! ### The warnings -/

/-- The last statement that is not empty is no expression. -/
def LacksResult (program : Program) : Prop :=
  ∃ before last after, program = before ++ last :: after ∧ last ≠ .empty ∧
    (∀ s ∈ after, s = .empty) ∧ ∀ e, last ≠ .result e

theorem endsInResult_eq_false_iff {program : Program} :
    endsInResult program = false ↔ LacksResult program := by
  constructor
  · intro h
    rw [endsInResult] at h
    split at h
    · cases h
    · cases h
    · next last hnot hlast =>
      obtain ⟨front, hkept⟩ := List.getLast?_eq_some_iff.mp hlast
      -- the last statement that is kept splits the program
      obtain ⟨before, rest, rfl, -, hrest⟩ := List.filter_eq_append_iff.mp hkept
      obtain ⟨skipped, after, rfl, -, hkeep, hafter⟩ := List.filter_eq_cons_iff.mp hrest
      refine ⟨before ++ skipped, last, after, by simp, ?_, fun s hs => ?_, ?_⟩
      · rintro rfl
        cases hkeep
      · have hdrop := List.filter_eq_nil_iff.mp hafter s hs
        cases s with
        | empty => rfl
        | _ => exact absurd rfl hdrop
      · rintro e rfl
        exact hnot e rfl
  · rintro ⟨before, last, after, rfl, hlast, hafter, hresult⟩
    rw [endsInResult, List.filter_append, List.filter_cons_of_pos,
      (List.filter_eq_nil_iff (l := after)).mpr, List.getLast?_append]
    · cases last with
      | empty => exact absurd rfl hlast
      | result e => exact absurd rfl (hresult e)
      | _ => rfl
    · intro s hs
      rw [hafter s hs]
      decide
    · cases last with
      | empty => exact absurd rfl hlast
      | _ => rfl

theorem parse_none_reported (source : List Char) :
    (parse none source).reported = Loops.sourceWarnings source ++
      match (parse none source).outcome with
      | .ok program => if endsInResult program then [] else [noResultWarning]
      | .error _ => [] := by
  rw [parse, Loops.expand_none]
  cases (Loops.fragments source).map Loops.textAll with
  | error e => exact (List.append_nil _).symm
  | ok text =>
    simp only [Reporting.mapError, Reporting.ofExcept, mapError_ok, Reporting.bind_ok,
      parseTokens_none]
    cases tokens text with
    | error e => rfl
    | ok ts =>
      simp only [mapError_ok, Reporting.bind_ok, List.nil_append]
      cases program text.length ts <;> rfl

/-- A policy only filters the warnings about a source text. Let these be the warnings, and this the
outcome, of reading it without a policy. If the policy makes a failure of one of the warnings, reading
ends with the first such failure, after reporting the warnings before it that are not dropped.
Otherwise it reports the warnings that are not dropped and has the same outcome. The warnings are those
about the loops, each at its loop, and behind them one if a program was read that lacks a result. -/
theorem parse_policy (p : Policy) (source : List Char) :
    (∀ before d after, (parse none source).reported = before ++ d :: after → p.Promotes d →
      (∀ e ∈ before, ¬p.Promotes e) →
        parse (some p) source = ⟨p.kept before, .error d.failure⟩ ∧
        d.failure.message = located ("[" ++ d.warning.code ++ "] " ++ d.text) d.position ∧
        d.failure.position = d.position) ∧
    ((∀ d ∈ (parse none source).reported, ¬p.Promotes d) →
      parse (some p) source =
        ⟨p.kept (parse none source).reported, (parse none source).outcome⟩) ∧
    (∀ program, (parse none source).outcome = .ok program → LacksResult program →
      (parse none source).reported = Loops.sourceWarnings source ++ [noResultWarning]) ∧
    ((∀ program, (parse none source).outcome = .ok program → ¬LacksResult program) →
      (parse none source).reported = Loops.sourceWarnings source) ∧
    (∀ fs, Loops.fragments source = .ok fs →
      Loops.sourceWarnings source = Loops.warningsAll fs ∧ Loops.WrittenAs 0 fs source) ∧
    ∀ d ∈ Loops.sourceWarnings source, ∃ i, d.position = some i ∧ source[i]? = some '@' := by
  -- without a policy all is reported: first the loops, then the result that is missing
  have hreported := parse_none_reported source
  refine ⟨fun before d after hr hd hbefore => ⟨?_, d.failure_message⟩, fun h => ?_,
    fun program hp hlacks => ?_, fun hnone => ?_, fun fs hfs => ⟨?_, ?_⟩,
    fun d hd => (Loops.mem_sourceWarnings hd).2⟩
  · rw [parse_some, Reporting.under_of_promoted hr hd hbefore]
  · rw [parse_some, Reporting.under_of_none_promoted h]
  · rw [hreported, hp]
    simp only [endsInResult_eq_false_iff.mpr hlacks]
    rfl
  · rw [hreported]
    cases hp : (parse none source).outcome with
    | error e => exact List.append_nil _
    | ok program =>
      have hends : endsInResult program = true := by
        rw [← Bool.not_eq_false, endsInResult_eq_false_iff]
        exact hnone program hp
      simp only [hends, if_true, List.append_nil]
  · rw [Loops.sourceWarnings, hfs]
  · exact (Loops.written_of_fragments hfs).2.2

end FieldLang
