/-
Commands that arguments can ask for.

* `Command.Fits` : the values of options are of the kinds that the options take;
* `Libraries.Documented` : what the documentation of the libraries of the command line says;
* `fits_of_ofArguments`, `documented_reference` : the reference is as documented;
* `Command.outputPath?`, `Invocation.Misused` : the file that a command is asked to write, and options
  that do not go together.

Design notes: that a value is a number, a target or a path is its type. Only that a width is above zero
is left to be said.
-/
import FieldLang.Proofs.Scene.Validity

namespace FieldLang

/-- A width that is given is above zero. -/
def Command.Fits : Command → Prop
  | .codegen o => ∀ width, o.width = some width → 0 < width
  | .format width _ _ _ => 0 < width
  | _ => True

/-- What is documented of the libraries of the command line. -/
structure Libraries.Documented (libraries : Libraries) : Prop where
  scenes : libraries.toSceneLibrary.Documented
  /-- Commands are only invoked with values that their options take. -/
  arguments : ∀ args inv, libraries.arguments args = .invoke inv → inv.command.Fits

/-- The file that a command is asked to write. -/
def Command.outputPath? : Command → Option Path
  | .codegen o => o.output
  | .format _ output _ _ => output
  | _ => none

/-- A file is to be changed in place that is also to be written elsewhere or to be compared, or a scene
is to be formatted. -/
def Invocation.Misused (inv : Invocation) : Prop :=
  ∃ width output inPlace compare, inv.command = .format width output inPlace compare ∧
    (inPlace = true ∧ (output.isSome = true ∨ compare = true) ∨ inv.path.isScene = true)

theorem misused_iff {inv : Invocation} {width : Int} {output : Option Path} {inPlace compare : Bool}
    (h : inv.command = .format width output inPlace compare) :
    inv.Misused ↔ formatMisuse? inv.path output inPlace compare ≠ none := by
  have hmisuse : inv.Misused ↔
      inPlace = true ∧ (output.isSome = true ∨ compare = true) ∨ inv.path.isScene = true := by
    simp only [Invocation.Misused, h, Command.format.injEq]
    exact ⟨fun ⟨_, _, _, _, ⟨rfl, rfl, rfl, rfl⟩, h⟩ => h, fun h => ⟨_, _, _, _, ⟨rfl, rfl, rfl, rfl⟩, h⟩⟩
  rw [hmisuse, formatMisuse?]
  cases inPlace <;> cases output.isSome <;> cases compare <;> cases inv.path.isScene <;> simp

/-! ### The reference -/

theorem width_pos {value : Option String} {width : Option Int}
    (h : Command.converted Command.width? value = some width) : ∀ n, width = some n → 0 < n := by
  rintro n rfl
  cases value with
  | none => cases h
  | some s =>
    rw [Command.converted, Command.width?] at h
    cases hs : Decimal.readInteger? s.toList with
    | none =>
      rw [hs] at h
      cases h
    | some m =>
      rw [hs] at h
      by_cases hm : 1 ≤ m
      · simp [hm] at h
        omega
      · simp [hm] at h

theorem fits_of_ofOptions? {name : String} {given : Given} {c : Command}
    (h : Command.ofOptions? name given = some c) : c.Fits := by
  unfold Command.ofOptions? at h
  split at h
  case h_5 =>
    -- points and angles are read as they are
    obtain ⟨points, -, h⟩ := Option.bind_eq_some_iff.mp h
    obtain ⟨a0, -, h⟩ := Option.bind_eq_some_iff.mp h
    obtain ⟨a1, -, h⟩ := Option.bind_eq_some_iff.mp h
    cases h
    trivial
  case h_6 =>
    obtain ⟨target, -, h⟩ := Option.bind_eq_some_iff.mp h
    obtain ⟨width, hwidth, h⟩ := Option.bind_eq_some_iff.mp h
    obtain ⟨a0, -, h⟩ := Option.bind_eq_some_iff.mp h
    obtain ⟨a1, -, h⟩ := Option.bind_eq_some_iff.mp h
    cases h
    exact width_pos hwidth
  case h_7 =>
    obtain ⟨width, hwidth, h⟩ := Option.bind_eq_some_iff.mp h
    cases h
    cases width with
    | none =>
      show (0 : Int) < defaultWidth
      decide
    | some n => exact width_pos hwidth n rfl
  case h_8 => cases h
  all_goals
    cases h
    trivial

theorem fits_of_ofCommand {name : String} {args : List String} {inv : Invocation}
    (h : Request.ofCommand name args = .invoke inv) : inv.command.Fits := by
  rw [Request.ofCommand] at h
  split at h
  · cases h
  split at h
  · cases h
  split at h
  · split at h
    · cases h
    · next hc =>
      cases h
      exact fits_of_ofOptions? hc
  · cases h

/-- The reference invokes commands with values that their options take. -/
theorem fits_of_ofArguments {args : List String} {inv : Invocation}
    (h : Request.ofArguments args = .invoke inv) : inv.command.Fits := by
  unfold Request.ofArguments at h
  split at h
  · cases h
  split at h
  -- the options of the program as a whole invoke nothing
  · split at h
    · cases h
    · split at h <;> cases h
  split at h
  · split at h
    · cases h
    · exact fits_of_ofCommand h
  split at h
  · cases h
  · exact fits_of_ofCommand h

/-- The reference is as the libraries of the command line are documented to be. -/
theorem documented_reference : Libraries.reference.Documented :=
  ⟨reference_documented, fun _ _ h => fits_of_ofArguments h⟩

end FieldLang
