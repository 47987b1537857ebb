/-
Running functions beside running programs.

* `Holds`, `Agrees` : a frame of the host holds what an environment does;
* `Simulates` : a computation of the host succeeds with a related result if one of a program does,
  and it meets an unbound variable if that one does;
* `Holds.get_bound`, `Holds.get_unbound`, `Agrees.set` : reading and assigning a variable.

Design notes: whatever else goes wrong in a program may or may not go wrong in the host, so nothing
is said about it.
-/
import FieldLang.Host.Run
import FieldLang.Proofs.Eval.Inversion
import FieldLang.Proofs.Host.Operators
import FieldLang.Proofs.Host.Trees

namespace FieldLang

/-- The host met a name that nothing is bound to. -/
inductive HostFault.IsUnbound : HostFault → Prop where
  | unassigned (name : String) : IsUnbound (.unassigned name)
  | undefined (name : String) : IsUnbound (.undefined name)

section Simulates

variable {α β α' β' : Type} {R : α → β → Prop} {R' : α' → β' → Prop}

/-- The computation of the host does what that of the program does. -/
def Simulates (R : α → β → Prop) (r : Except EvalError α) (s : Except HostFault β) : Prop :=
  match r with
  | .ok a => ∃ b, s = .ok b ∧ R a b
  | .error (.unbound _) => ∃ fault, s = .error fault ∧ fault.IsUnbound
  | .error _ => True

theorem Simulates.ok {a : α} {b : β} (h : R a b) : Simulates R (.ok a) (.ok b) := ⟨b, rfl, h⟩

theorem Simulates.error {e : EvalError} (h : ∀ name, e ≠ .unbound name) (s : Except HostFault β) :
    Simulates R (.error e) s := by
  cases e with
  | unbound name => exact absurd rfl (h name)
  | _ => trivial

/-- Two computations of two steps. -/
theorem Simulates.bind {r : Except EvalError α} {s : Except HostFault β}
    {f : α → Except EvalError α'} {g : β → Except HostFault β'} (h : Simulates R r s)
    (hf : ∀ a b, R a b → Simulates R' (f a) (g b)) : Simulates R' (r >>= f) (s >>= g) := by
  cases r with
  | ok a =>
    obtain ⟨b, rfl, hab⟩ := h
    exact hf a b hab
  | error e =>
    cases e with
    | unbound name =>
      obtain ⟨fault, rfl, hfault⟩ := h
      exact ⟨fault, rfl, hfault⟩
    | _ => trivial

/-- What is known of the program's result, too. -/
theorem Simulates.and {r : Except EvalError α} {s : Except HostFault β} {P : α → Prop}
    (h : Simulates R r s) (hP : ∀ a, r = .ok a → P a) :
    Simulates (fun a b => R a b ∧ P a) r s := by
  cases r with
  | ok a =>
    obtain ⟨b, rfl, hab⟩ := h
    exact .ok ⟨hab, hP a rfl⟩
  | error e => cases e <;> exact h

end Simulates

/-! ### Frames -/

theorem Host.name_mem_globalNames (f : Builtin) : f.name ∈ Host.globalNames :=
  List.mem_append_left _ (List.mem_map.mpr ⟨f, f.mem_all, rfl⟩)

namespace HostFrame

variable {frame : HostFrame} {name other : String} {v : HostValue}

theorem lookup_set_self : (frame.set name v).locals.lookup name = some (some v) := by
  simp [set]

theorem lookup_set_of_ne (h : other ≠ name) :
    (frame.set name v).locals.lookup other = frame.locals.lookup other := by
  have hne : (other == name) = false := by simpa using h
  rw [set, List.lookup_cons, hne]
  induction frame.locals with
  | nil => rfl
  | cons entry rest ih =>
    obtain ⟨n, u⟩ := entry
    by_cases hn : n = name
    · subst hn
      rw [List.filter_cons_of_neg (by simp), List.lookup_cons, hne]
      exact ih
    · rw [List.filter_cons_of_pos (by simpa using hn), List.lookup_cons, List.lookup_cons]
      cases other == n with
      | true => rfl
      | false => exact ih

/-- A function that programs call, if the frame holds nothing in place of it. -/
theorem callee_name {f : Builtin} (h : frame.locals.lookup f.name = none) :
    frame.callee f.name = .ok f := by
  have hfind : Builtin.all.find? (fun g => g.name == f.name) = some f := by cases f <;> decide
  rw [callee, h]
  simp only [hfind]

end HostFrame

/-- The frame holds what the environment does, and nothing in place of what the host needs. -/
structure Holds (w : HostWriter) (env : Env Float Bool) (frame : HostFrame) : Prop where
  function : frame.function = w.functionName
  bound : ∀ name v, IsName name → env.get? name = some v →
    frame.locals.lookup (w.variableText name) = some (some v.toHost)
  unbound : ∀ name, IsName name → env.get? name = none →
    ∀ v, frame.locals.lookup (w.variableText name) ≠ some (some v)
  globals : ∀ name ∈ Host.globalNames, frame.locals.lookup name = none

/-- The environment holds the angles, too. -/
structure Agrees (w : HostWriter) (angles : Angles) (env : Env Float Bool) (frame : HostFrame) :
    Prop extends Holds w env frame where
  first : env.get? "a0" = some (.scalar angles.a0)
  second : env.get? "a1" = some (.scalar angles.a1)

section Holds

variable {w : HostWriter} {angles : Angles}
  {env : Env Float Bool} {frame : HostFrame} {literals : Literals} {name : String}

namespace Holds

variable (h : Holds w env frame)
include h

/-- Reading a variable that has a value. -/
theorem get_bound (hname : IsName name) {v : Value Float Bool} (hv : env.get? name = some v) :
    frame.get literals (w.variableText name) = .ok v.toHost := by
  rw [HostFrame.get, h.bound name v hname hv]

/-- The infinity is not bound to anything else. -/
theorem get_inf : frame.get literals "inf" = .ok (literals.real Double.infinity) := by
  rw [HostFrame.get, h.globals "inf" (by decide)]
  rfl

theorem get_nan : frame.get literals "nan" = .ok (literals.real Double.nan) := by
  rw [HostFrame.get, h.globals "nan" (by decide)]
  rfl

/-- The functions that programs call are not bound to anything else. -/
theorem callee_name (f : Builtin) : frame.callee f.name = .ok f :=
  HostFrame.callee_name (h.globals _ (Host.name_mem_globalNames f))

/-- Reading a variable that has no value. -/
theorem get_unbound (hw : ¬HostWriter.Clashes w.functionName) (hname : IsName name)
    (hv : env.get? name = none) :
    ∃ fault, frame.get literals (w.variableText name) = .error fault ∧ fault.IsUnbound := by
  have hglobal : w.variableText name ∉ Host.globalNames := HostWriter.variableText_not_mem name
  rw [HostFrame.get]
  -- the name is a local variable without a value, or the host does not know it
  cases hl : frame.locals.lookup (w.variableText name) with
  | some entry =>
    cases entry with
    | some v => exact absurd hl (h.unbound name hname hv v)
    | none => exact ⟨_, rfl, .unassigned _⟩
  | none =>
    refine ⟨.undefined (w.variableText name), ?_, .undefined _⟩
    rw [if_neg, if_neg, if_neg]
    · rw [h.function]
      exact HostWriter.variableText_ne_function hw hname
    · intro heq
      exact hglobal (heq ▸ by decide)
    · intro heq
      exact hglobal (heq ▸ by decide)

/-- Binding a variable. -/
theorem set (hname : IsName name) (v : Value Float Bool) :
    Holds w (env.set name v) (frame.set (w.variableText name) v.toHost) := by
  have hglobal : w.variableText name ∉ Host.globalNames := HostWriter.variableText_not_mem name
  have hdiffer {other : String} (hother : IsName other) (heq : other ≠ name) :
      w.variableText other ≠ w.variableText name := fun ht =>
    heq (HostWriter.variableText_injective (HostWriter.isIdentifier_of_isName hother)
      (HostWriter.isIdentifier_of_isName hname) ht)
  refine ⟨h.function, fun other u hother hu => ?_, fun other hother hu u => ?_, fun g hg => ?_⟩
  -- different variables are spelled differently, so only the one that is bound changes
  · by_cases heq : other = name
    · subst heq
      rw [Env.get?_set_self] at hu
      cases hu
      exact HostFrame.lookup_set_self
    · rw [Env.get?_set_of_ne env v heq] at hu
      rw [HostFrame.lookup_set_of_ne (hdiffer hother heq)]
      exact h.bound other u hother hu
  · have heq : other ≠ name := by
      rintro rfl
      rw [Env.get?_set_self] at hu
      cases hu
    rw [Env.get?_set_of_ne env v heq] at hu
    rw [HostFrame.lookup_set_of_ne (hdiffer hother heq)]
    exact h.unbound other hother hu u
  · have hne : g ≠ w.variableText name := by
      rintro rfl
      exact hglobal hg
    rw [HostFrame.lookup_set_of_ne hne]
    exact h.globals g hg

end Holds

/-- Assigning a variable. -/
theorem Agrees.set (h : Agrees w angles env frame) (hname : IsName name)
    (hwritable : name ∉ readOnlyNames) (v : Value Float Bool) :
    Agrees w angles (env.set name v) (frame.set (w.variableText name) v.toHost) := by
  have hkeep {other : String} (ho : other ∈ readOnlyNames) :
      (env.set name v).get? other = env.get? other :=
    Env.get?_set_of_ne env v fun heq => hwritable (heq ▸ ho)
  refine ⟨h.toHolds.set hname v, ?_, ?_⟩
  · rw [hkeep (by decide)]
    exact h.first
  · rw [hkeep (by decide)]
    exact h.second

end Holds

end FieldLang
