/-
Calls of functions in the host language.

* `Meaning.components`, `uses_hostMeaning` : every number in a result depends on some argument;
* `callBuiltin_toHost` : a call that has a value in a program has the same one in the host, where
  the turns take their angle as an argument.
-/
import FieldLang.Proofs.Except
import FieldLang.Proofs.Host.Operators

namespace FieldLang

/-- The numbers of a result. -/
def Meaning.components {n : Nat} : Meaning n → List (Component n)
  | .scalar c => [c]
  | .vector cs => cs

/-- Every number of a result depends on some argument. -/
def Meaning.Uses {n : Nat} (m : Meaning n) : Prop := ∀ c ∈ m.components, c.uses ≠ []

section Uses

variable {n : Nat} {m : Meaning n}

theorem uses_one (h : 0 < n) (value : Vector Float n → Float) : (Meaning.one value).Uses := by
  intro c hc
  cases List.mem_singleton.mp hc
  show List.finRange n ≠ []
  intro hnil
  have := congrArg List.length hnil
  simp at this
  omega

theorem uses_argument (i : Fin n) : (Meaning.scalar (.argument i)).Uses := by
  intro c hc
  cases List.mem_singleton.mp hc
  exact List.cons_ne_nil _ _

theorem uses_row {ι : Type} (h : 0 < n) (is : List ι) (value : ι → Vector Float n → Float) :
    (Meaning.vector (is.map fun i => .ofAll (value i))).Uses := by
  intro c hc
  obtain ⟨i, -, rfl⟩ := List.mem_map.mp hc
  exact uses_one h (value i) _ (List.mem_singleton.mpr rfl)

theorem uses_two (h : 0 < n) (first second : Vector Float n → Float) :
    (Meaning.two first second).Uses :=
  uses_row h [first, second] id

theorem uses_unary {name : String} {f : Float → Float}
    (h : Meaning.unary name f n = .ok m) : m.Uses := by
  rw [Meaning.unary.eq_def] at h
  split at h <;> cases h
  exact uses_one (by decide) _

theorem uses_binary {name : String} {f : Float → Float → Float}
    (h : Meaning.binary name f n = .ok m) : m.Uses := by
  rw [Meaning.binary.eq_def] at h
  split at h <;> cases h
  exact uses_one (by decide) _

theorem uses_ternary {name : String} {f : Float → Float → Float → Float}
    (h : Meaning.ternary name f n = .ok m) : m.Uses := by
  rw [Meaning.ternary.eq_def] at h
  split at h <;> cases h
  exact uses_one (by decide) _

theorem uses_quaternary {name : String} {f : Float → Float → Float → Float → Float}
    (h : Meaning.quaternary name f n = .ok m) : m.Uses := by
  rw [Meaning.quaternary.eq_def] at h
  split at h <;> cases h
  exact uses_one (by decide) _

theorem uses_turn {name : String} (h : Meaning.turn name n = .ok m) : m.Uses := by
  rw [Meaning.turn.eq_def] at h
  split at h <;> cases h
  exact uses_two (by decide) _ _

theorem uses_folded {f : Float → List Float → Float} (h : Meaning.folded f n = .ok m) : m.Uses := by
  cases n with
  | zero => cases h
  | succ n =>
    cases h
    exact uses_one (Nat.succ_pos n) _

theorem uses_blended {f : Float → List Float → Float → Float} (h : Meaning.blended f n = .ok m) :
    m.Uses := by
  rw [Meaning.blended.eq_def] at h
  split at h <;> cases h
  · exact uses_argument _
  · exact uses_argument _
  · exact uses_one (Nat.succ_pos _) _

theorem uses_rectangle (h : Meaning.rectangle n = .ok m) : m.Uses := by
  rw [Meaning.rectangle.eq_def] at h
  split at h <;> cases h <;> exact uses_one (by decide) _

theorem uses_box (h : Meaning.box n = .ok m) : m.Uses := by
  rw [Meaning.box.eq_def] at h
  split at h <;> cases h <;> exact uses_one (by decide) _

theorem uses_noise (h : Meaning.noise n = .ok m) : m.Uses := by
  rw [Meaning.noise.eq_def] at h
  split at h
  · cases h
    exact uses_one (by decide) _
  · rw [Meaning.spaceNoise.eq_def] at h
    split at h <;> cases h <;> exact uses_one (by decide) _

theorem uses_hashed (h : Meaning.hashed n = .ok m) : m.Uses := by
  rw [Meaning.hashed.eq_def] at h
  split at h <;> cases h <;> exact uses_one (by decide) _

theorem uses_moved (h : Meaning.moved n = .ok m) : m.Uses := by
  rw [Meaning.moved.eq_def] at h
  split at h <;> cases h <;> intro c hc <;> simp only [Meaning.components, List.mem_cons,
    List.not_mem_nil, or_false] at hc <;> rcases hc with rfl | rfl | rfl <;> exact List.cons_ne_nil _ _

theorem uses_crossed (h : Meaning.crossed n = .ok m) : m.Uses := by
  rw [Meaning.crossed.eq_def] at h
  split at h <;> cases h
  intro c hc
  simp only [Meaning.components, List.mem_cons, List.not_mem_nil, or_false] at hc
  rcases hc with rfl | rfl | rfl <;> exact List.cons_ne_nil _ _

theorem uses_rotated (h : Meaning.rotated n = .ok m) : m.Uses := by
  rw [Meaning.rotated.eq_def] at h
  split at h <;> cases h
  exact uses_two (by decide) _ _

theorem uses_ring (h : Meaning.ring n = .ok m) : m.Uses := by
  rw [Meaning.ring.eq_def] at h
  split at h <;> cases h
  exact uses_one (by decide) _

/-- With at least one argument every number of a result depends on one. -/
theorem uses_hostMeaning {f : Builtin} (hn : 0 < n) (h : f.hostMeaning n = .ok m) : m.Uses := by
  cases f <;> rw [Builtin.hostMeaning] at h <;>
    first
    | exact uses_unary h
    | exact uses_binary h
    | exact uses_ternary h
    | exact uses_quaternary h
    | exact uses_turn h
    | exact uses_folded h
    | exact uses_blended h
    | exact uses_rectangle h
    | exact uses_box h
    | exact uses_noise h
    | exact uses_hashed h
    | exact uses_moved h
    | exact uses_crossed h
    | exact uses_rotated h
    | exact uses_ring h
    | (cases h; exact uses_one hn _)
    | (cases h; exact uses_row hn _ _)

end Uses

/-! ### Calls -/

section Calls

variable {n : Nat}

theorem getD_real (xs : List Float) (j : Nat) :
    (xs.map (HostValue.real .array)).getD j (.real .array 0) = .real .array (xs.getD j 0) := by
  rw [List.getD_eq_getElem?_getD, List.getD_eq_getElem?_getD, List.getElem?_map]
  cases xs[j]? <;> rfl

/-- A number computed from doubles is a double. -/
theorem componentValue_real (f : Builtin) (xs : List Float) (v : Vector Float n) (place : Nat)
    {c : Component n} (hc : c.uses ≠ []) :
    componentValue f (xs.map (.real .array)) v place c = .real .array (c.value v) := by
  obtain ⟨j, more, huses⟩ := List.exists_cons_of_ne_nil hc
  have hused : c.uses.map (fun j => (xs.map (HostValue.real .array)).getD j.val (.real .array 0))
      = c.uses.map fun j => .real .array (xs.getD j.val 0) :=
    List.map_congr_left fun j _ => getD_real xs j.val
  -- one of the numbers is a double, so the result is one
  have hwhole : ((c.uses.map fun j => HostValue.real .array (xs.getD j.val 0)).all
      fun v => v.toInt?.isSome) = false := by
    rw [huses]
    rfl
  have horigin : (c.uses.map fun j => HostValue.real .array (xs.getD j.val 0)).foldl
      (fun o v => o.join v.origin) Origin.plain = .array := by
    rw [huses, List.map_cons, List.foldl_cons]
    induction more.map fun j => HostValue.real .array (xs.getD j.val 0) with
    | nil => rfl
    | cons v vs ih => exact ih
  rw [componentValue]
  simp only [hused, hwhole, horigin, ite_self]
  rfl

theorem mapM_argumentNumber (xs : List Float) :
    (xs.map (HostValue.real .array)).mapM argumentNumber = .ok xs := by
  induction xs with
  | nil => rfl
  | cons x xs ih =>
    rw [List.map_cons, List.mapM_cons, ih]
    rfl

theorem raisesToNegative_real (f : Builtin) (xs : List Float) :
    raisesToNegative f (xs.map (.real .array)) = false := by
  rw [raisesToNegative.eq_def]
  split
  · next v w hargs =>
    have hv : v ∈ xs.map (HostValue.real .array) := hargs ▸ List.mem_cons_self ..
    obtain ⟨x, -, rfl⟩ := List.mem_map.mp hv
    rfl
  · rfl

/-- A row of numbers computed from doubles is a vector. -/
theorem tuple_toHost (f : Builtin) (xs : List Float) (args : Vector Float n)
    {cs : List (Component n)} (hcs : ∀ c ∈ cs, c.uses ≠ []) {v : Value Float Bool}
    (h : Value.ofAxes (cs.map fun c => c.value args) = .ok v) :
    HostValue.tuple (cs.mapIdx fun i c => componentValue f (xs.map (.real .array)) args i c) =
      v.toHost := by
  have hreal (i : Nat) (c : Component n) (hc : c ∈ cs) :=
    componentValue_real f xs args i (hcs c hc)
  match cs with
  | [c, c'] =>
    cases h
    simp [List.mapIdx_cons, hreal, Value.toHost]
  | [c, c', c''] =>
    cases h
    simp [List.mapIdx_cons, hreal, Value.toHost]
  | [] | [_] | _ :: _ :: _ :: _ :: _ => cases h

/-- A function that is applied to its arguments agrees with its meaning. -/
theorem callBuiltin_meaning {f : Builtin} {xs : List Float} {m : Meaning xs.length}
    {v : Value Float Bool} (hn : 0 < xs.length)
    (hsole : soleDistance? f (xs.map (.real .array)) = none)
    (hm : f.hostMeaning xs.length = .ok m)
    (hoctaves : ∀ i, f.octaveArgument xs.length = some i → checkOctavesAt (xs.get i) = .ok ())
    (h : m.apply (.mk xs.toArray rfl) = .ok v) :
    callBuiltin f (xs.map (.real .array)) = .ok v.toHost := by
  have hargs := mapM_argumentNumber xs
  have huses := uses_hostMeaning hn hm
  rw [callBuiltin, hsole]
  simp only [hargs, raisesToNegative_real, bind, Except.bind, hm, mapError_ok]
  -- octaves are checked before the function is applied, whatever it yields
  cases m with
  | scalar c =>
    cases h
    have hv := componentValue_real f xs (.mk xs.toArray rfl) 0
      (huses c (List.mem_singleton.mpr rfl))
    cases ho : f.octaveArgument xs.length with
    | none => exact congrArg Except.ok hv
    | some i =>
      have hcheck : checkOctavesAt xs[i] = .ok () := hoctaves i ho
      simp only [hcheck]
      exact congrArg Except.ok hv
  | vector cs =>
    have hv := tuple_toHost f xs (.mk xs.toArray rfl) huses h
    cases ho : f.octaveArgument xs.length with
    | none => exact congrArg Except.ok hv
    | some i =>
      have hcheck : checkOctavesAt xs[i] = .ok () := hoctaves i ho
      simp only [hcheck]
      exact congrArg Except.ok hv

/-- No function takes no arguments at all. -/
theorem pos_of_accepts {f : Builtin} (h : f.arity.accepts n = true) : 0 < n := by
  cases n with
  | zero => cases f <;> exact absurd h (by decide)
  | succ n => exact Nat.succ_pos n

/-- The combinators hand back the only distance that they are given. -/
theorem sole_toHost {angles : Angles} {f : Builtin} {xs : List Float} {v : Value Float Bool}
    {w : HostValue} (hsole : soleDistance? f (xs.map (.real .array)) = some w)
    (harity : f.arity.accepts xs.length = true) (h : applyBuiltin angles f xs = .ok v) :
    w = v.toHost := by
  match xs with
  | [] => cases pos_of_accepts harity
  | [x] =>
    cases f <;> first
      | (cases hsole; cases h; rfl)
      | cases hsole
  | [x, r] =>
    cases f <;> first
      | (cases hsole; cases h; rfl)
      | cases hsole
  | _ :: _ :: _ :: _ => cases f <;> cases hsole

/-- What a function takes in the host besides its arguments. -/
def Builtin.hostExtra (angles : Angles) : Builtin → List Float
  | .rot0 => [angles.a0]
  | .rot1 => [angles.a1]
  | _ => []

theorem meaning_eq {angles : Angles} {f : Builtin} (h₀ : f ≠ .rot0) (h₁ : f ≠ .rot1) (n : Nat) :
    f.meaning angles n = f.hostMeaning n := by
  cases f <;> first | rfl | exact absurd rfl h₀ | exact absurd rfl h₁

/-- A function that a program calls agrees with that of the host. -/
theorem callBuiltin_toHost {angles : Angles} {f : Builtin} {xs : List Float} {v : Value Float Bool}
    (harity : f.arity.accepts xs.length = true) (h : applyBuiltin angles f xs = .ok v) :
    callBuiltin f ((xs ++ f.hostExtra angles).map (.real .array)) = .ok v.toHost := by
  -- the turns have another meaning in the host, where the angle is their last argument
  by_cases h₀ : f = .rot0
  · subst h₀
    match xs with
    | [x, y] =>
      cases h
      rfl
    | [] | [_] | _ :: _ :: _ :: _ => exact absurd harity (by simp [Builtin.arity, Arity.accepts])
  by_cases h₁ : f = .rot1
  · subst h₁
    match xs with
    | [x, y] =>
      cases h
      rfl
    | [] | [_] | _ :: _ :: _ :: _ => exact absurd harity (by simp [Builtin.arity, Arity.accepts])
  have hextra : f.hostExtra angles = [] := by
    cases f <;> first | rfl | exact absurd rfl h₀ | exact absurd rfl h₁
  rw [hextra, List.append_nil]
  -- a combinator of one distance returns it as it is, without computing anything
  cases hsole : soleDistance? f (xs.map (.real .array)) with
  | some w =>
    rw [callBuiltin, hsole, ← sole_toHost hsole harity h]
  | none =>
    rw [applyBuiltin, applyBuiltinTo, bind_eq_ok] at h
    obtain ⟨m, hm, h⟩ := h
    obtain ⟨_, hoctaves, h⟩ := bind_eq_ok.mp h
    rw [meaning_eq h₀ h₁] at hm
    refine callBuiltin_meaning (pos_of_accepts harity) hsole hm (fun i hi => ?_) h
    rw [checkOctaveArgument] at hoctaves
    replace hi : f.octaveArgument xs.toArray.size = some i := hi
    rw [hi] at hoctaves
    exact hoctaves

end Calls

end FieldLang
