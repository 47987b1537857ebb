/-
What the kinds of values decide.

* `applyBinary_kind`, `Meaning.apply_kind`, `applyBuiltin_kind` : an operation that succeeds does so
  on values of the same kinds, and yields a value of the same kind;
* `Env.shape_set_congr`, `assignAll_shape` : so do assignments;
* `evalExpr_connective_kind` : a connective yields a truth value.

Design notes: two runs of one program are compared here, one of which may hold other numbers, and
hold them in another carrier. Apart from the counting of octaves nothing depends on the numbers but
where a run goes.
-/
import FieldLang.Proofs.Eval.Failures

namespace FieldLang

section Operations

variable {σ β σ' β' : Type} [Carrier σ β] [Carrier σ' β'] {angles : Angles}

/-- Operands of the same kinds have a value of the same kind. -/
theorem applyBinary_kind {op : BinOp} {v w u : Value σ β} {v' w' : Value σ' β'}
    (hv : v'.kind = v.kind) (hw : w'.kind = w.kind) (h : applyBinary op v w = .ok u) :
    ∃ u', applyBinary op v' w' = .ok u' ∧ u'.kind = u.kind := by
  cases v with
  | scalar x =>
    cases w with
    | scalar y =>
      cases v' <;> cases hv
      cases w' <;> cases hw
      simp only [applyBinary] at h ⊢
      split at h
      · cases h
        exact ⟨_, rfl, rfl⟩
      · cases h
        exact ⟨_, rfl, rfl⟩
      · cases h
    | boolean b => cases h
    | vec2 x y => cases h
    | vec3 x y z => cases h
  | boolean b =>
    cases w with
    | boolean b' =>
      cases v' <;> cases hv
      cases w' <;> cases hw
      simp only [applyBinary] at h ⊢
      split at h
      · cases h
        exact ⟨_, rfl, rfl⟩
      · cases h
    | scalar x => cases h
    | vec2 x y => cases h
    | vec3 x y z => cases h
  | vec2 x y => cases h
  | vec3 x y z => cases h

/-- The meaning of a function decides the kind of its values. -/
theorem Meaning.apply_kind {n : Nat} {m : Meaning n} {xs : Vector σ n} {v : Value σ β}
    (xs' : Vector σ' n) (h : m.apply xs = .ok v) :
    ∃ v' : Value σ' β', m.apply xs' = .ok v' ∧ v'.kind = v.kind := by
  cases m with
  | scalar c =>
    cases h
    exact ⟨_, rfl, rfl⟩
  | vector cs =>
    match cs with
    | [_, _] | [_, _, _] =>
      cases h
      exact ⟨_, rfl, rfl⟩
    | [] | [_] | _ :: _ :: _ :: _ :: _ => cases h

/-- A function of as many arguments has a value of the same kind, unless it cannot count octaves. -/
theorem applyBuiltin_kind {f : Builtin} {xs : List σ} {xs' : List σ'} {v : Value σ β}
    (hl : xs'.length = xs.length) (h : applyBuiltin angles f xs = .ok v)
    (hcount : checkOctaveArgument (β := β') f (Vector.mk xs'.toArray rfl) = .ok ()) :
    ∃ v' : Value σ' β', applyBuiltin angles f xs' = .ok v' ∧ v'.kind = v.kind := by
  have hsize : xs.toArray.size = xs'.toArray.size := by simp [hl]
  rw [applyBuiltin_eq hsize, applyBuiltinTo_ok] at h
  obtain ⟨m, hm, -, hv⟩ := h
  obtain ⟨v', hv', hkind⟩ : ∃ v' : Value σ' β', m.apply (Vector.mk xs'.toArray rfl) = .ok v' ∧
      v'.kind = v.kind := Meaning.apply_kind _ hv
  exact ⟨v', applyBuiltinTo_ok.mpr ⟨m, hm, hcount, hv'⟩, hkind⟩

theorem evalExpr_connective_kind {env env' : Env σ β} {op : BinOp} {k : Connective}
    {lhs rhs : Expr} {v : Value σ β} (hop : op.connective? = some k)
    (h : evalExpr angles env (.binary op lhs rhs) = .ok (v, env')) : v.kind = .boolean := by
  obtain ⟨b, envL, -, hw⟩ := (evalExpr_connective_ok hop).mp h
  rcases hw with ⟨-, rfl, -⟩ | ⟨-, vR, -, hc⟩ | ⟨-, vR, envR, -, hc, -⟩
  · rfl
  · obtain ⟨b', -, rfl⟩ := applyConnective_ok.mp hc
    rfl
  · obtain ⟨b', -, rfl⟩ := applyConnective_ok.mp hc
    rfl

end Operations

/-! ### Bindings -/

section Bindings

variable {σ β σ' β' : Type} {env env₁ : Env σ β} {env' : Env σ' β'}

/-- Environments of one shape have one shape after an assignment of values of one kind. -/
theorem Env.shape_set_congr (hs : env'.shape = env.shape) {v : Value σ β} {v' : Value σ' β'}
    (hk : v'.kind = v.kind) (name : String) :
    (env'.set name v').shape = (env.set name v).shape := by
  induction env generalizing env' with
  | nil =>
    obtain rfl : env' = [] := List.map_eq_nil_iff.mp hs
    simp [Env.set, Env.shape, hk]
  | cons entry rest ih =>
    obtain ⟨n, old⟩ := entry
    obtain ⟨⟨n', old'⟩, rest', rfl, hentry, hrest⟩ := List.map_eq_cons_iff.mp hs
    obtain ⟨rfl, hold⟩ := Prod.mk.inj hentry
    by_cases hn : n' = name
    · simpa [Env.set, Env.shape, hn, hk] using hrest
    · have ih' : (Env.set rest' name v').shape = (Env.set rest name v).shape := ih hrest
      simp only [Env.shape] at ih'
      simp [Env.set, Env.shape, hn, hold, ih']

/-- Bindings of one shape can be assigned to environments of one shape. -/
theorem assignAll_shape {bindings : Env σ β} {bindings' : Env σ' β'}
    (hs : env'.shape = env.shape) (hb : bindings'.shape = bindings.shape)
    (h : assignAll env bindings = .ok env₁) :
    ∃ env₁', assignAll env' bindings' = .ok env₁' ∧ env₁'.shape = env₁.shape := by
  induction bindings generalizing env env' bindings' with
  | nil =>
    obtain rfl : bindings' = [] := List.map_eq_nil_iff.mp hb
    cases h
    exact ⟨env', rfl, hs⟩
  | cons binding rest ih =>
    obtain ⟨name, v⟩ := binding
    obtain ⟨⟨name', v'⟩, rest', rfl, hbinding, hrest⟩ := List.map_eq_cons_iff.mp hb
    obtain ⟨rfl, hk⟩ := Prod.mk.inj hbinding
    obtain ⟨hn, h⟩ := assignAll_cons_ok.mp h
    obtain ⟨env₂, h₂, hshape⟩ := ih (Env.shape_set_congr hs hk name') hrest h
    exact ⟨env₂, assignAll_cons_ok.mpr ⟨hn, h₂⟩, hshape⟩

/-- Values of the same kinds are bindings of one shape to the same names. -/
theorem Env.shape_zip {names : List String} {vs : List (Value σ β)} {vs' : List (Value σ' β')}
    (h : vs'.map Value.kind = vs.map Value.kind) :
    Env.shape (names.zip vs') = Env.shape (names.zip vs) := by
  calc Env.shape (names.zip vs') = names.zip (vs'.map Value.kind) := by
        rw [List.zip_map_right]
        rfl
    _ = names.zip (vs.map Value.kind) := by rw [h]
    _ = Env.shape (names.zip vs) := by
        rw [List.zip_map_right]
        rfl

theorem Value.axes?_length {v : Value σ β} {v' : Value σ' β'} (h : v'.kind = v.kind) :
    v'.axes?.map List.length = v.axes?.map List.length := by
  cases v <;> cases v' <;> first | rfl | cases h

end Bindings

end FieldLang
