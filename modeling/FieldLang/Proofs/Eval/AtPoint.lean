/-
Values of a run at several points, taken at one of them.

* `Value.atPoint`, `Env.atPoint`, `State.atPoint` : what is left of a value, an environment and
  a state at a point;
* `Column.verdict_spec` : what the verdict of a condition says about the points;
* `Column.get_apply` : a component of a result at a point;
* `Env.merge_atPoint` : a merge is one of its two environments at each point;
* `applyBinary_atPoint`, `applyConnective_atPoint`, `Meaning.apply_atPoint`,
  `assignAll_atPoint` : operators, functions and bindings point by point.

Design notes: apart from the check of octave counts, an operation at several points fails
where it fails at one point and with the same error, because the kinds of values decide.
-/
import FieldLang.Eval.Field
import FieldLang.Proofs.Eval.Shape

namespace FieldLang

variable {n : Nat}

/-! ### Columns -/

namespace Column

private theorem all_iff (values : Vector Bool n) :
    values.toList.all id = true ↔ ∀ i : Fin n, (each values).get i = true := by
  rw [List.all_eq_true]
  constructor
  · intro h i
    exact h _ (Vector.mem_toList_iff.mpr (Vector.getElem_mem i.2))
  · intro h b hb
    obtain ⟨j, hj, rfl⟩ := Vector.mem_iff_getElem.mp (Vector.mem_toList_iff.mp hb)
    exact h ⟨j, hj⟩

private theorem any_iff (values : Vector Bool n) :
    values.toList.any id = true ↔ ∃ i : Fin n, (each values).get i = true := by
  rw [List.any_eq_true]
  constructor
  · rintro ⟨b, hb, rfl : b = true⟩
    obtain ⟨j, hj, hv⟩ := Vector.mem_iff_getElem.mp (Vector.mem_toList_iff.mp hb)
    exact ⟨⟨j, hj⟩, hv⟩
  · rintro ⟨i, hi⟩
    exact ⟨_, Vector.mem_toList_iff.mpr (Vector.getElem_mem i.2), hi⟩

/-- What the verdict of a condition says about the points, of which there is one. -/
theorem verdict_spec (mask : Column n Bool) (hn : n ≠ 0) :
    (mask.verdict = .always ∧ ∀ i, mask.get i = true) ∨
      (mask.verdict = .never ∧ ∀ i, mask.get i = false) ∨
      (mask.verdict = .mixed ∧ (∃ i, mask.get i = true) ∧ ∃ i, mask.get i = false) := by
  cases mask with
  | const b =>
    cases b with
    | true => exact .inl ⟨rfl, fun _ => rfl⟩
    | false => exact .inr (.inl ⟨rfl, fun _ => rfl⟩)
  | each values =>
    by_cases hall : values.toList.all id = true
    · refine .inl ⟨?_, (all_iff values).mp hall⟩
      rw [verdict, if_neg hn, if_pos hall]
    · have hsome : ∃ i, (each values).get i = false := by
        by_contra hc
        refine hall ((all_iff values).mpr fun i => ?_)
        simpa using fun hi => hc ⟨i, hi⟩
      by_cases hany : values.toList.any id = true
      · refine .inr (.inr ⟨?_, (any_iff values).mp hany, hsome⟩)
        rw [verdict, if_neg hn, if_neg hall, if_pos hany]
      · refine .inr (.inl ⟨?_, fun i => ?_⟩)
        · rw [verdict, if_neg hn, if_neg hall, if_neg hany]
        · by_contra hc
          exact hany ((any_iff values).mpr ⟨i, by simpa using hc⟩)

/-- A component of a result at a point is that of the arguments at the point. -/
theorem get_apply {k : Nat} (c : Component n) (args : Vector (Column k Float) n) (i : Fin k) :
    (apply c args).get i = c.value (args.map fun a => a.get i) := by
  rw [apply]
  by_cases h : (c.uses.all fun j => (args.get j).isConst) = true
  · rw [if_pos h, get_const]
    -- the arguments that are replaced by zero are none that the component depends on
    refine c.depends _ _ fun j hj => ?_
    have hc := List.all_eq_true.mp h j hj
    have hmap (f : Column k Float → Float) : (args.map f).get j = f (args.get j) :=
      Vector.getElem_map f j.2
    rw [hmap, hmap]
    cases ha : args.get j with
    | const x => rfl
    | each values => simp [ha, isConst] at hc
  · rw [if_neg h]
    simp

end Column

/-! ### Values, environments and states at a point -/

/-- A value at a point. -/
def Value.atPoint (v : Value (Column n Float) (Column n Bool)) (i : Fin n) : Value Float Bool :=
  match v with
  | scalar x => .scalar (x.get i)
  | boolean b => .boolean (b.get i)
  | vec2 x y => .vec2 (x.get i) (y.get i)
  | vec3 x y z => .vec3 (x.get i) (y.get i) (z.get i)

@[simp] theorem Value.kind_atPoint (v : Value (Column n Float) (Column n Bool)) (i : Fin n) :
    (v.atPoint i).kind = v.kind := by
  cases v <;> rfl

/-- A value chosen point by point is one of the two at each point. -/
theorem Value.choose?_atPoint {mask : Column n Bool}
    {v w u : Value (Column n Float) (Column n Bool)} (h : v.choose? mask w = some u)
    (i : Fin n) : u.atPoint i = if mask.get i then v.atPoint i else w.atPoint i := by
  cases v <;> cases w <;> simp [Value.choose?] at h <;> subst h <;>
    simp [Value.atPoint, Carrier.choose, Carrier.chooseTruth] <;> split <;> simp

namespace Env

/-- The bindings at a point. -/
def atPoint (env : Env (Column n Float) (Column n Bool)) (i : Fin n) : Env Float Bool :=
  env.map fun (name, v) => (name, v.atPoint i)

variable {env : Env (Column n Float) (Column n Bool)} {i : Fin n}

@[simp] theorem get?_atPoint (name : String) :
    (env.atPoint i).get? name = (env.get? name).map (Value.atPoint · i) := by
  induction env with
  | nil => rfl
  | cons entry rest ih =>
    obtain ⟨m, v⟩ := entry
    by_cases h : m = name
    · simp [atPoint, get?, h]
    · simpa [atPoint, get?, h] using ih

@[simp] theorem set_atPoint (name : String) (v : Value (Column n Float) (Column n Bool)) :
    (env.set name v).atPoint i = (env.atPoint i).set name (v.atPoint i) := by
  induction env with
  | nil => rfl
  | cons entry rest ih =>
    obtain ⟨m, w⟩ := entry
    by_cases h : m = name
    · simp [atPoint, set, h]
    · simpa [atPoint, set, h] using ih

/-- A binding is found under its name if no name is bound twice. -/
theorem get?_of_mem {σ β : Type} {env : Env σ β} (hd : env.Distinct) {name : String}
    {v : Value σ β} (h : (name, v) ∈ env) : env.get? name = some v := by
  induction env with
  | nil => simp at h
  | cons entry rest ih =>
    obtain ⟨m, w⟩ := entry
    rw [Distinct, List.map_cons, List.nodup_cons] at hd
    rcases List.mem_cons.mp h with heq | hr
    · obtain ⟨rfl, rfl⟩ := Prod.mk.inj heq
      simp [get?]
    · have hne : m ≠ name := by
        rintro rfl
        exact hd.1 (List.mem_map.mpr ⟨_, hr, rfl⟩)
      simpa [get?, hne] using ih hd.2 hr

/-- At each point a merge is one of its two environments, when these bind the same names to
values of the same kinds. -/
theorem merge_atPoint {mask : Column n Bool} {taken other : Env (Column n Float) (Column n Bool)}
    (hd : other.Distinct) (hs : taken.shape = other.shape) (i : Fin n) :
    (merge mask taken other).atPoint i =
      if mask.get i then taken.atPoint i else other.atPoint i := by
  have hlen : taken.length = other.length := by
    simpa [shape] using congrArg List.length hs
  -- the two environments bind the same names in the same order, so place by place
  refine List.ext_getElem (by split <;> simp [atPoint, merge, hlen]) fun k hk hk' => ?_
  have hkt : k < taken.length := by simpa [atPoint, merge] using hk
  have hko : k < other.length := hlen ▸ hkt
  have hkeys : (taken[k].1, taken[k].2.kind) = (other[k].1, other[k].2.kind) := by
    have := List.getElem_of_eq hs (by simpa [shape] using hkt)
    simpa [shape] using this
  obtain ⟨hname, hkind⟩ := Prod.mk.inj hkeys
  have hfound : other.get? taken[k].1 = some other[k].2 := by
    rw [hname]
    exact get?_of_mem hd (List.getElem_mem hko)
  obtain ⟨u, hu⟩ : ∃ u, taken[k].2.choose? mask other[k].2 = some u := Value.choose?_isSome hkind
  have hl : ((merge mask taken other).atPoint i)[k] = (taken[k].1, u.atPoint i) := by
    simp [atPoint, merge, hfound, hu]
  rw [hl, Value.choose?_atPoint hu]
  by_cases hm : mask.get i = true
  · simp [hm, atPoint]
  · simp [hm, atPoint, hname]

end Env

/-- The bindings of a state and its last value at a point. -/
def State.atPoint (s : BatchState n) (i : Fin n) : SingleState :=
  ⟨s.env.atPoint i, s.last.map (Value.atPoint · i)⟩

/-! ### Operators and functions -/

variable {i : Fin n}

theorem applyBinary_atPoint (op : BinOp) (lhs rhs : Value (Column n Float) (Column n Bool)) :
    applyBinary op (lhs.atPoint i) (rhs.atPoint i) =
      (applyBinary op lhs rhs).map (Value.atPoint · i) := by
  -- an operator takes two numbers or two truth values, and fails alike on all else
  cases lhs with
  | scalar x =>
    cases rhs with
    | scalar y =>
      simp only [Value.atPoint, applyBinary]
      cases op.arithmetic? with
      | some f => simp [Except.map, Carrier.zip]
      | none =>
        cases op.relation? with
        | some r => simp [Except.map, Carrier.compare]
        | none => rfl
    | boolean b => rfl
    | vec2 x y => rfl
    | vec3 x y z => rfl
  | boolean b =>
    cases rhs with
    | boolean b' =>
      simp only [Value.atPoint, applyBinary]
      cases op.truthRelation? with
      | some r => simp [Except.map, Carrier.zipTruth]
      | none => rfl
    | scalar x => rfl
    | vec2 x y => rfl
    | vec3 x y z => rfl
  | vec2 x y => cases rhs <;> rfl
  | vec3 x y z => cases rhs <;> rfl

theorem applyConnective_atPoint (k : Connective) (b : Column n Bool)
    (rhs : Value (Column n Float) (Column n Bool)) :
    applyConnective k (b.get i) (rhs.atPoint i) =
      (applyConnective k b rhs).map (Value.atPoint · i) := by
  cases rhs with
  | boolean b' => simp [applyConnective, Except.map, Value.atPoint, Carrier.zipTruth]
  | scalar x => rfl
  | vec2 x y => rfl
  | vec3 x y z => rfl

/-- Where the right operand runs, point by point. -/
theorem Connective.get_runsRight (k : Connective) (b : Column n Bool) :
    (k.runsRight (Column n Float) b).get i = k.runsRight Float (b.get i) := by
  cases k with
  | and => rfl
  | or => simp [runsRight, Carrier.opposite]

theorem Value.ofAxes_atPoint (axes : List (Column n Float)) :
    Value.ofAxes (axes.map (·.get i)) =
      (Value.ofAxes axes : Except _ (Value _ (Column n Bool))).map (Value.atPoint · i) := by
  match axes with
  | [] => rfl
  | [x] => rfl
  | [x, y] => rfl
  | [x, y, z] => rfl
  | x :: y :: z :: w :: rest => simp [ofAxes, Except.map]

theorem Meaning.apply_atPoint {k : Nat} (m : Meaning k) (xs : Vector (Column n Float) k) :
    m.apply (xs.map (·.get i)) =
      (m.apply xs : Except _ (Value _ (Column n Bool))).map (Value.atPoint · i) := by
  cases m with
  | scalar c => simp [apply, Except.map, Value.atPoint, Carrier.apply, Column.get_apply]
  | vector cs =>
    rw [apply, apply, ← Value.ofAxes_atPoint, List.map_map]
    simp [Function.comp_def, Carrier.apply, Column.get_apply]

/-- Octaves can be counted by a column if they can be at each point, of which there is one. -/
theorem Column.checkOctaves_ok_iff (count : Column n Float) (hn : n ≠ 0) :
    count.checkOctaves = .ok () ↔ ∀ i, checkOctavesAt (count.get i) = .ok () := by
  cases count with
  | const x =>
    have : Nonempty (Fin n) := ⟨⟨0, Nat.pos_of_ne_zero hn⟩⟩
    simp [checkOctaves]
  | each values =>
    -- a column is checked as a list of its values, a point by its place in it
    have hall : values.toList.all Float.isFinite = true ↔
        ∀ i : Fin n, checkOctavesAt ((each values).get i) = .ok () := by
      rw [List.all_eq_true]
      constructor
      · intro h i
        have hf := h _ (Vector.mem_toList_iff.mpr (Vector.getElem_mem i.2))
        simp [checkOctavesAt, hf]
      · intro h x hx
        obtain ⟨j, hj, rfl⟩ := Vector.mem_iff_getElem.mp (Vector.mem_toList_iff.mp hx)
        by_contra hc
        have hj := h ⟨j, hj⟩
        simp only [checkOctavesAt, get_each, Fin.getElem_fin, hc] at hj
        cases hj
    rw [← hall, checkOctaves]
    by_cases h : values.toList.all Float.isFinite = true
    · simp only [h, hn, if_true, if_false]
    · rw [if_neg h]
      simp [h]

/-- A column that cannot count octaves has a point where it cannot. -/
theorem Column.checkOctaves_error {count : Column n Float} (hn : n ≠ 0) {e : CallError}
    (h : count.checkOctaves = .error e) : ∃ i, checkOctavesAt (count.get i) = .error e := by
  -- there is only one such failure, so any point that cannot count has it
  have hsole : e = .infiniteOctaves := by
    cases count with
    | const x =>
      by_cases hx : x.isFinite = true
      · simp [checkOctaves, checkOctavesAt, hx] at h
      · simpa [checkOctaves, checkOctavesAt, hx, eq_comm] using h
    | each values =>
      by_cases hx : values.toList.all Float.isFinite = true
      · simp only [checkOctaves, hx, hn, if_true, if_false] at h
        cases h
      · rw [checkOctaves, if_neg hx] at h
        exact (Except.error.inj h).symm
  have hne : ¬ ∀ i, checkOctavesAt (count.get i) = .ok () := by
    rw [← checkOctaves_ok_iff count hn, h]
    simp
  obtain ⟨i, hi⟩ := not_forall.mp hne
  refine ⟨i, ?_⟩
  rw [hsole]
  by_cases hx : (count.get i).isFinite = true
  · simp [checkOctavesAt, hx] at hi
  · simp [checkOctavesAt, hx]

theorem checkOctaveArgument_ok_iff {k : Nat} (f : Builtin) (xs : Vector (Column n Float) k)
    (hn : n ≠ 0) :
    checkOctaveArgument (β := Column n Bool) f xs = .ok () ↔
      ∀ i, checkOctaveArgument (β := Bool) f (xs.map (·.get i)) = .ok () := by
  have : Nonempty (Fin n) := ⟨⟨0, Nat.pos_of_ne_zero hn⟩⟩
  rw [checkOctaveArgument]
  cases h : f.octaveArgument k with
  | none => simp [checkOctaveArgument, h]
  | some j =>
    have hmap (g : Column n Float → Float) : (xs.map g).get j = g (xs.get j) :=
      Vector.getElem_map g j.2
    simp only [checkOctaveArgument, h, hmap]
    exact Column.checkOctaves_ok_iff _ hn

section

variable {k : Nat} {angles : Angles} {f : Builtin} {xs : Vector (Column n Float) k}

/-- Where octaves cannot be counted, they cannot be at one of the points. -/
theorem checkOctaveArgument_error_atPoint (hn : n ≠ 0) {e : CallError}
    (h : checkOctaveArgument (β := Column n Bool) f xs = .error e) :
    ∃ i : Fin n, checkOctaveArgument (β := Bool) f (xs.map (·.get i)) = .error e := by
  rw [checkOctaveArgument] at h
  cases ha : f.octaveArgument k with
  | none => simp [ha] at h
  | some j =>
    simp only [ha] at h
    obtain ⟨i, hi⟩ := Column.checkOctaves_error hn h
    refine ⟨i, ?_⟩
    have hmap : (xs.map (·.get i)).get j = (xs.get j).get i := Vector.getElem_map _ j.2
    simp only [checkOctaveArgument, ha, hmap]
    exact hi

/-- The value of a function at a point is that for the arguments at the point. -/
theorem applyBuiltinTo_atPoint {v : Value (Column n Float) (Column n Bool)}
    (h : applyBuiltinTo angles f xs = .ok v) (i : Fin n) :
    applyBuiltinTo angles f (xs.map (·.get i)) = .ok (v.atPoint i) := by
  have hn : n ≠ 0 := fun e => (e ▸ i).elim0
  obtain ⟨m, hm, ho, hv⟩ := applyBuiltinTo_ok.mp h
  refine applyBuiltinTo_ok.mpr ⟨m, hm, (checkOctaveArgument_ok_iff f xs hn).mp ho i, ?_⟩
  rw [Meaning.apply_atPoint, hv]
  rfl

/-- A function that has no value at all points at once has none at one of them, and for the
same reason. -/
theorem applyBuiltinTo_error_atPoint (hn : n ≠ 0) {e : CallError}
    (h : applyBuiltinTo (β := Column n Bool) angles f xs = .error e) :
    ∃ i : Fin n, applyBuiltinTo (β := Bool) angles f (xs.map (·.get i)) = .error e := by
  let i₀ : Fin n := ⟨0, Nat.pos_of_ne_zero hn⟩
  simp only [applyBuiltinTo, bind_eq_error] at h ⊢
  -- all points have the same number of arguments, and results of the same size
  rcases h with hm | ⟨m, hm, ho | ⟨⟨⟩, ho, hv⟩⟩
  · exact ⟨i₀, .inl hm⟩
  · obtain ⟨i, hi⟩ := checkOctaveArgument_error_atPoint hn ho
    exact ⟨i, .inr ⟨m, hm, .inl hi⟩⟩
  · refine ⟨i₀, .inr ⟨m, hm, .inr ⟨(), (checkOctaveArgument_ok_iff f xs hn).mp ho i₀, ?_⟩⟩⟩
    rw [Meaning.apply_atPoint, hv]
    rfl

variable {axes : List (Column n Float)}

theorem applyBuiltin_atPoint {v : Value (Column n Float) (Column n Bool)}
    (h : applyBuiltin angles f axes = .ok v) (i : Fin n) :
    applyBuiltin angles f (axes.map (·.get i)) = .ok (v.atPoint i) := by
  have hv := applyBuiltinTo_atPoint h i
  rw [applyBuiltin_eq (by simp : (axes.map (·.get i)).toArray.size = axes.toArray.size)]
  simpa using hv

theorem applyBuiltin_error_atPoint (hn : n ≠ 0) {e : CallError}
    (h : applyBuiltin (β := Column n Bool) angles f axes = .error e) :
    ∃ i : Fin n, applyBuiltin (β := Bool) angles f (axes.map (·.get i)) = .error e := by
  obtain ⟨i, hi⟩ := applyBuiltinTo_error_atPoint hn h
  refine ⟨i, ?_⟩
  rw [applyBuiltin_eq (by simp : (axes.map (·.get i)).toArray.size = axes.toArray.size)]
  simpa using hi

end

/-! ### Bindings -/

theorem assignAll_atPoint (env : Env (Column n Float) (Column n Bool))
    (bindings : List (String × Value (Column n Float) (Column n Bool))) :
    assignAll (env.atPoint i) (Env.atPoint bindings i) =
      (assignAll env bindings).map (Env.atPoint · i) := by
  induction bindings generalizing env with
  | nil => rfl
  | cons binding rest ih =>
    obtain ⟨name, v⟩ := binding
    by_cases h : name ∈ readOnlyNames
    · simp [Env.atPoint, assignAll, assign, h, bind, Except.bind, Except.map]
    · have := ih (env.set name v)
      rw [Env.set_atPoint] at this
      simpa [Env.atPoint, assignAll, assign, h, bind, Except.bind] using this

end FieldLang
