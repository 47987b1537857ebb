/-
What stays the same in the environment of a run.

* `Sameness` : what it is for a value not to have changed, at one point and at several;
* `evalExpr_unchanged` : an expression changes the numbers that it steps, and nothing else;
* `Env.Anchored` : the coordinates and the angle parameters are bound;
* `TurnsAgree` : turns by an angle parameter are turns by the variable of that name;
* `environment_invariant` : the names and kinds of variables, the coordinates and the angle
  parameters at every moment of every run.

Design notes: a merge at several points writes a value for each point, also where both
environments have one value for all points. A variable that no step names is therefore the same
at each point, and not always the same column.
-/
import FieldLang.Proofs.Eval.Batch

namespace FieldLang

variable {σ β : Type} [Carrier σ β] {angles : Angles} {env env' : Env σ β} {v : Value σ β}

/-! ### Variables that do not change -/

/-- Values that count as the same as a value: itself, and mixtures of such values. -/
structure Sameness (same : Value σ β → Value σ β → Prop) : Prop where
  refl : ∀ v, same v v
  kind_eq : ∀ {v w : Value σ β}, same v w → w.kind = v.kind
  chosen : ∀ {mask : β} {v w w' u : Value σ β}, Carrier.verdict σ mask = .mixed → same v w →
    same v w' → w.choose? mask w' = some u → same v u

/-- At a single point nothing is mixed, and only a value itself is the same. -/
theorem sameness_single : Sameness (Eq : Value Float Bool → Value Float Bool → Prop) where
  refl _ := rfl
  kind_eq h := h ▸ rfl
  chosen := by
    intro mask v w w' u hv
    rw [verdict_single] at hv
    cases mask <;> cases hv

section Columns

variable {n : Nat}

/-- The values are the same at each point. Where there are no points, they are one value. -/
def SameAtPoints (v w : Value (Column n Float) (Column n Bool)) : Prop :=
  (n = 0 → v = w) ∧ ∀ i, v.atPoint i = w.atPoint i

/-- Without points no condition is mixed. -/
theorem ne_zero_of_mixed {mask : Column n Bool}
    (h : Carrier.verdict (Column n Float) mask = .mixed) : n ≠ 0 := by
  intro hn
  have hm : mask.verdict = .mixed := h
  cases mask with
  | const b => cases b <;> cases hm
  | each values =>
    rw [Column.verdict, if_pos hn] at hm
    cases hm

theorem sameness_atPoints : Sameness (SameAtPoints (n := n)) where
  refl v := ⟨fun _ => rfl, fun _ => rfl⟩
  kind_eq := by
    rintro v w ⟨hnone, hpoints⟩
    by_cases hn : n = 0
    · rw [hnone hn]
    · have hi := congrArg Value.kind (hpoints ⟨0, Nat.pos_of_ne_zero hn⟩)
      rw [Value.kind_atPoint, Value.kind_atPoint] at hi
      exact hi.symm
  chosen := by
    intro mask v w w' u hmixed hw hw' hu
    refine ⟨fun hn => absurd hn (ne_zero_of_mixed hmixed), fun i => ?_⟩
    rw [Value.choose?_atPoint hu]
    cases mask.get i with
    | true => exact hw.2 i
    | false => exact hw'.2 i

end Columns

section

variable {same : Value σ β → Value σ β → Prop}

/-- A value that is the same in both environments is the same in their merge. -/
theorem Sameness.holds_merge (hsame : Sameness same) {mask : β} {taken other : Env σ β}
    {name : String} {w : Value σ β} (hmixed : Carrier.verdict σ mask = .mixed)
    (ht : taken.Holds name (same w)) (ho : other.Holds name (same w)) :
    (Env.merge mask taken other).Holds name (same w) := by
  obtain ⟨v, hv, hsv⟩ := ht
  obtain ⟨v', hv', hsv'⟩ := ho
  obtain ⟨u, hu⟩ : ∃ u, v.choose? mask v' = some u :=
    Value.choose?_isSome ((hsame.kind_eq hsv).trans (hsame.kind_eq hsv').symm)
  refine ⟨u, ?_, hsame.chosen hmixed hsv hsv' hu⟩
  rw [Env.get?_merge, hv, hv']
  simp [hu]

/-- The evaluation of an expression changes no variables but numbers that it steps. -/
theorem evalExpr_unchanged (hsame : Sameness same) {e : Expr} {name : String} {w : Value σ β}
    (hget : env.get? name = some w) (hstep : ¬ (w.kind = .scalar ∧ e.Steps name))
    (h : evalExpr angles env e = .ok (v, env')) : env'.Holds name (same w) := by
  refine evalExpr_keeps (I := fun env => env.Holds name (same w))
    (fun mask taken other hmixed _ => hsame.holds_merge hmixed) ?_
    ⟨w, hget, hsame.refl w⟩ h
  intro name' op env x hmem _ hx hI
  refine hI.set_of_ne ?_ _
  rintro rfl
  obtain ⟨w', hw', hs⟩ := hI
  cases hw'.symm.trans hx
  exact hstep ⟨(hsame.kind_eq hs).symm, op, hmem⟩

/-- No variable is bound twice, the coordinates are bound, and the angle parameters have their
values. -/
structure Env.Anchored (same : Value σ β → Value σ β → Prop) (angles : Angles) (env : Env σ β) :
    Prop where
  distinct : env.Distinct
  coordinates : ∀ name ∈ ["x", "y", "z"], ∃ v, env.get? name = some v
  a0 : ∃ v, env.get? "a0" = some v ∧ same (.scalar (Carrier.const β angles.a0)) v
  a1 : ∃ v, env.get? "a1" = some v ∧ same (.scalar (Carrier.const β angles.a1)) v

theorem initialEnv_anchored (hsame : Sameness same) (x y z : σ) :
    (initialEnv angles x y z).Anchored same angles where
  distinct := initialEnv_distinct x y z
  coordinates := by
    intro name hname
    simp only [List.mem_cons, List.not_mem_nil, or_false] at hname
    rcases hname with rfl | rfl | rfl
    · exact ⟨_, rfl⟩
    · exact ⟨_, rfl⟩
    · exact ⟨_, rfl⟩
  a0 := ⟨_, rfl, hsame.refl _⟩
  a1 := ⟨_, rfl, hsame.refl _⟩

theorem anchored_invariant (hsame : Sameness same) :
    Env.Invariant fun env => env.Anchored same angles where
  set := by
    intro env name v hn h
    have hne : ∀ other ∈ readOnlyNames, other ≠ name := fun other ho he => hn (he ▸ ho)
    refine ⟨h.distinct.set _ _, fun other ho => ?_, ?_, ?_⟩
    · obtain ⟨w, hw⟩ := h.coordinates other ho
      obtain ⟨w', hw', -⟩ := Env.Holds.set_any ⟨w, hw, trivial⟩ name v
      exact ⟨w', hw'⟩
    · exact Env.Holds.set_of_ne h.a0 (hne "a0" (by decide)) v
    · exact Env.Holds.set_of_ne h.a1 (hne "a1" (by decide)) v
  merge := by
    intro mask taken other hmixed _ ht ho
    refine ⟨ht.distinct.of_shape_eq (Env.shape_merge _ _ _), fun name hname => ?_, ?_, ?_⟩
    · obtain ⟨w, hw⟩ := ht.coordinates name hname
      obtain ⟨w', hw', -⟩ := Env.exists_get?_of_shape_eq (Env.shape_merge mask taken other) hw
      exact ⟨w', hw'⟩
    · exact hsame.holds_merge hmixed ht.a0 ho.a0
    · exact hsame.holds_merge hmixed ht.a1 ho.a1

end

/-! ### Turns by the angle parameters -/

/-- The functions that turn by an angle parameter, with the parameter. -/
def parameterTurns (angles : Angles) : List (Builtin × Float) :=
  [(.rot0, angles.a0), (.rot1, angles.a1)]

/-- A function of two arguments turns them as the function of three arguments does, with the
given value as the angle. -/
def TurnsBy (same : Value σ β → Value σ β → Prop) (angles : Angles) (f : Builtin) (a : σ) : Prop :=
  ∀ p q : σ, ∃ r r', applyBuiltin angles f [p, q] = .ok r ∧
    (f.hostMeaning 3 >>= fun m => m.apply #v[p, q, a]) = .ok r' ∧ same r r'

/-- A turn by a parameter is one by every value that is the same as the parameter. -/
def TurnsAgree (same : Value σ β → Value σ β → Prop) (angles : Angles) : Prop :=
  ∀ f angle, (f, angle) ∈ parameterTurns angles → ∀ a : σ,
    same (.scalar (Carrier.const β angle)) (.scalar a) → TurnsBy same angles f a

theorem turnsAgree_single : TurnsAgree (Eq : Value Float Bool → Value Float Bool → Prop) angles := by
  intro f angle h a ha p q
  cases ha
  simp only [parameterTurns, List.mem_cons, Prod.mk.injEq, List.not_mem_nil, or_false] at h
  rcases h with ⟨rfl, rfl⟩ | ⟨rfl, rfl⟩
  · exact ⟨_, _, rfl, rfl, rfl⟩
  · exact ⟨_, _, rfl, rfl, rfl⟩

section

variable {n : Nat}

/-- A function of two columns that is one of three with a fixed number. -/
theorem Column.apply_fixed {value : Vector Float 2 → Float} {value' : Vector Float 3 → Float}
    {angle : Float} (h : ∀ x y, value #v[x, y] = value' #v[x, y, angle]) (p q : Column n Float) :
    apply (.ofAll value) #v[p, q] = apply (.ofAll value') #v[p, q, .const angle] := by
  have htwo (v : Vector (Column n Float) 2) :
      ((List.finRange 2).all fun j => (v.get j).isConst) = (v[0].isConst && v[1].isConst) := by
    rw [show List.finRange 2 = [0, 1] by decide]
    simp [Vector.get]
  have hthree (v : Vector (Column n Float) 3) :
      ((List.finRange 3).all fun j => (v.get j).isConst) =
        (v[0].isConst && v[1].isConst && v[2].isConst) := by
    rw [show List.finRange 3 = [0, 1, 2] by decide]
    simp [Vector.get, Bool.and_assoc]
  simp only [apply, Component.ofAll, htwo, hthree]
  cases p <;> cases q <;> simp [isConst, h]

/-- Where the angle is a column that is the same as a number, so is what is computed with it. -/
theorem sameAtPoints_turn {first second : Vector Float 2 → Float}
    {first' second' : Vector Float 3 → Float} {angle : Float}
    (hfirst : ∀ x y, first #v[x, y] = first' #v[x, y, angle])
    (hsecond : ∀ x y, second #v[x, y] = second' #v[x, y, angle]) {a : Column n Float}
    (p q : Column n Float) (ha : SameAtPoints (.scalar (.const angle)) (.scalar a)) :
    SameAtPoints
      (.vec2 (Column.apply (.ofAll first) #v[p, q]) (Column.apply (.ofAll second) #v[p, q]))
      (.vec2 (Column.apply (.ofAll first') #v[p, q, a])
        (Column.apply (.ofAll second') #v[p, q, a])) := by
  refine ⟨fun hn => ?_, fun i => ?_⟩
  · cases ha.1 hn
    rw [Column.apply_fixed hfirst, Column.apply_fixed hsecond]
  · have hi : angle = a.get i := Value.scalar.inj (ha.2 i)
    simp [Value.atPoint, Column.get_apply, Component.ofAll, hfirst, hsecond, hi]

theorem turnsAgree_atPoints : TurnsAgree (SameAtPoints (n := n)) angles := by
  intro f angle h a ha p q
  simp only [parameterTurns, List.mem_cons, Prod.mk.injEq, List.not_mem_nil, or_false] at h
  rcases h with ⟨rfl, rfl⟩ | ⟨rfl, rfl⟩
  · exact ⟨_, _, rfl, rfl, sameAtPoints_turn (fun _ _ => rfl) (fun _ _ => rfl) p q ha⟩
  · exact ⟨_, _, rfl, rfl, sameAtPoints_turn (fun _ _ => rfl) (fun _ _ => rfl) p q ha⟩

end

/-! ### Environments -/

section

variable {same : Value σ β → Value σ β → Prop}

/-- What holds of the environments of all runs, for a notion of the same value. -/
structure EnvironmentInvariant (same : Value σ β → Value σ β → Prop) (angles : Angles) :
    Prop where
  /-- An expression keeps the names and kinds of variables, and changes numbers that it steps. -/
  expression : ∀ (e : Expr) (env env' : Env σ β) (v : Value σ β),
    evalExpr angles env e = .ok (v, env') → env'.shape = env.shape ∧
      ∀ name w, env.get? name = some w → ¬ (w.kind = .scalar ∧ e.Steps name) →
        ∃ w', env'.get? name = some w' ∧ same w w'
  /-- The coordinates and the angle parameters are bound at every moment of a run. -/
  moment : ∀ (program : Stmt) (x y z : σ) (env : Env σ β),
    Moment angles (initialState angles x y z) program env → env.Anchored same angles
  /-- The angle parameters are those that turns use. -/
  turns : ∀ (program : Stmt) (x y z : σ) (env : Env σ β),
    Moment angles (initialState angles x y z) program env →
      (∃ a, env.get? "a0" = some (.scalar a) ∧ TurnsBy same angles .rot0 a) ∧
        ∃ a, env.get? "a1" = some (.scalar a) ∧ TurnsBy same angles .rot1 a
  /-- A merge finds every variable in both environments, with values that it can choose from. -/
  merge : ∀ (program : Stmt) (x y z : σ) (mask : β) (taken other : Env σ β),
    MergesIn angles (initialState angles x y z) program mask taken other →
      taken.shape = other.shape ∧
        ∀ name v, (name, v) ∈ taken → ∃ v' u, other.get? name = some v' ∧ v'.kind = v.kind ∧
          v.choose? mask v' = some u

theorem TurnsAgree.turnsBy (hsame : Sameness same) (h : TurnsAgree same angles) {f : Builtin}
    {angle : Float} (hf : (f, angle) ∈ parameterTurns angles) {name : String}
    (hv : ∃ v, env.get? name = some v ∧ same (.scalar (Carrier.const β angle)) v) :
    ∃ a, env.get? name = some (.scalar a) ∧ TurnsBy same angles f a := by
  obtain ⟨v, hget, hs⟩ := hv
  have hkind := hsame.kind_eq hs
  cases v with
  | scalar a => exact ⟨a, hget, h f angle hf a hs⟩
  | boolean b => cases hkind
  | vec2 x y => cases hkind
  | vec3 x y z => cases hkind

theorem environmentInvariant_of (hsame : Sameness same) (hturns : TurnsAgree same angles) :
    EnvironmentInvariant same angles := by
  have hmoment (program : Stmt) (x y z : σ) (env : Env σ β)
      (h : Moment angles (initialState angles x y z) program env) : env.Anchored same angles :=
    h.keeps (anchored_invariant hsame) (initialEnv_anchored hsame x y z)
  refine ⟨fun e env env' v h => ⟨evalExpr_shape h, fun name w hget hstep =>
      evalExpr_unchanged hsame hget hstep h⟩, hmoment, fun program x y z env h => ⟨?_, ?_⟩,
    fun program x y z mask taken other h => h.found (initialEnv_distinct x y z)⟩
  · exact hturns.turnsBy hsame (by simp [parameterTurns]) (hmoment program x y z env h).a0
  · exact hturns.turnsBy hsame (by simp [parameterTurns]) (hmoment program x y z env h).a1

end

/-- At a point and at any number of points, with every program: expressions keep the names and
kinds of variables, the coordinates and the angle parameters are bound at every moment, and merges
find what they look up. -/
theorem environment_invariant (angles : Angles) :
    EnvironmentInvariant (Eq : Value Float Bool → Value Float Bool → Prop) angles ∧
      ∀ n, EnvironmentInvariant (SameAtPoints (n := n)) angles :=
  ⟨environmentInvariant_of sameness_single turnsAgree_single,
    fun _ => environmentInvariant_of sameness_atPoints turnsAgree_atPoints⟩

end FieldLang
