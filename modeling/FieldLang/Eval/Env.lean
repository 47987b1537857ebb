/-
Variables and their values.

* `Env` : bindings in the order in which the names were first bound;
* `Env.get?`, `Env.set` : reading and writing a binding;
* `Env.merge` : two environments with the same names, chosen from point by point.
-/
import FieldLang.Eval.Value

namespace FieldLang

/-- Bindings, in the order in which the names were first bound. -/
abbrev Env (σ β : Type) := List (String × Value σ β)

namespace Env

variable {σ β : Type}

/-- The value of a variable. -/
def get? : Env σ β → String → Option (Value σ β)
  | [], _ => none
  | (n, v) :: rest, name => if n = name then some v else get? rest name

/-- The bindings with a variable bound to a value. -/
def set : Env σ β → String → Value σ β → Env σ β
  | [], name, v => [(name, v)]
  | (n, old) :: rest, name, v =>
    if n = name then (name, v) :: rest else (n, old) :: set rest name v

@[simp] theorem get?_set_self (env : Env σ β) (name : String) (v : Value σ β) :
    (env.set name v).get? name = some v := by
  induction env with
  | nil => simp [set, get?]
  | cons entry rest ih =>
    obtain ⟨n, old⟩ := entry
    by_cases h : n = name <;> simp [set, get?, h, ih]

theorem get?_set_of_ne (env : Env σ β) {name other : String} (v : Value σ β)
    (h : other ≠ name) : (env.set name v).get? other = env.get? other := by
  induction env with
  | nil => simp [set, get?, Ne.symm h]
  | cons entry rest ih =>
    obtain ⟨n, old⟩ := entry
    by_cases hn : n = name
    · subst hn
      simp [set, get?, Ne.symm h]
    · simp [set, get?, hn, ih]

end Env

/-- The first value where the condition holds, and the second elsewhere. Values of different
kinds have no such value. -/
def Value.choose? {σ β : Type} [Carrier σ β] (mask : β) :
    Value σ β → Value σ β → Option (Value σ β)
  | .scalar x, .scalar x' => some (.scalar (Carrier.choose mask x x'))
  | .boolean b, .boolean b' => some (.boolean (Carrier.chooseTruth (σ := σ) mask b b'))
  | .vec2 x y, .vec2 x' y' =>
    some (.vec2 (Carrier.choose mask x x') (Carrier.choose mask y y'))
  | .vec3 x y z, .vec3 x' y' z' =>
    some (.vec3 (Carrier.choose mask x x') (Carrier.choose mask y y') (Carrier.choose mask z z'))
  | _, _ => none

/-- The bindings of the first environment where the condition holds, and those of the second
elsewhere. A binding without a counterpart of its kind is kept. -/
def Env.merge {σ β : Type} [Carrier σ β] (mask : β) (taken other : Env σ β) : Env σ β :=
  taken.map fun (name, v) =>
    match other.get? name with
    | none => (name, v)
    | some v' => (name, (v.choose? mask v').getD v)

end FieldLang
