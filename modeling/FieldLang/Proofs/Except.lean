/-
How computations that may fail end.

* `bind_eq_ok`, `bind_eq_error`, `exists_bind_ok` : a computation of two steps;
* `pure_eq_ok`, `map_eq_ok` : success;
* `mapError_ok`, `mapError_error`, `mapError_eq_ok`, `mapError_eq_error` : failures in another type;
* `mapM_eq_ok`, `exists_mapM_ok`, `mapM_eq_error` : a computation for each of a list;
* `Alike` : two computations that end alike.
-/

namespace FieldLang

variable {ε ε' α α' : Type}

/-- A computation of two steps succeeds if both steps do. -/
theorem bind_eq_ok {r : Except ε α} {f : α → Except ε α'} {b : α'} :
    (r >>= f) = .ok b ↔ ∃ a, r = .ok a ∧ f a = .ok b := by
  cases r with
  | ok a => simp [bind, Except.bind]
  | error e => simp [bind, Except.bind]

/-- It fails if the first step does, or the second one after the first. -/
theorem bind_eq_error {r : Except ε α} {f : α → Except ε α'} {e : ε} :
    (r >>= f) = .error e ↔ r = .error e ∨ ∃ a, r = .ok a ∧ f a = .error e := by
  cases r with
  | ok a => simp [bind, Except.bind]
  | error e => simp [bind, Except.bind]

/-- That a computation of two steps succeeds, whatever its value. -/
theorem exists_bind_ok {r : Except ε α} {f : α → Except ε α'} :
    (∃ b, (r >>= f) = .ok b) ↔ ∃ a, r = .ok a ∧ ∃ b, f a = .ok b := by
  simp only [bind_eq_ok]
  exact ⟨fun ⟨b, a, hr, hf⟩ => ⟨a, hr, b, hf⟩, fun ⟨a, hr, b, hf⟩ => ⟨b, a, hr, hf⟩⟩

theorem pure_eq_ok {a b : α} : (pure a : Except ε α) = .ok b ↔ a = b := by
  simp [pure, Except.pure]

theorem map_eq_ok {r : Except ε α} {f : α → α'} {b : α'} :
    (f <$> r) = .ok b ↔ ∃ a, r = .ok a ∧ f a = b := by
  cases r with
  | ok a => simp [Functor.map, Except.map]
  | error e => simp [Functor.map, Except.map]

theorem mapError_ok {f : ε → ε'} {a : α} : (Except.ok a : Except ε α).mapError f = .ok a := rfl

theorem mapError_error {f : ε → ε'} {e : ε} :
    (Except.error e : Except ε α).mapError f = .error (f e) := rfl

theorem mapError_eq_ok {r : Except ε α} {f : ε → ε'} {a : α} :
    r.mapError f = .ok a ↔ r = .ok a := by
  cases r with
  | ok b => constructor <;> rintro ⟨⟩ <;> rfl
  | error e => exact ⟨nofun, nofun⟩

theorem mapError_eq_error {r : Except ε α} {f : ε → ε'} {e : ε'} :
    r.mapError f = .error e ↔ ∃ e', r = .error e' ∧ f e' = e := by
  cases r with
  | ok b => exact ⟨nofun, nofun⟩
  | error e' => simp [mapError_error]

theorem mapM_eq_ok {as : List α} {f : α → Except ε α'} {cs : List α'} (h : as.mapM f = .ok cs) :
    ∀ a ∈ as, ∃ c, f a = .ok c := by
  induction as generalizing cs with
  | nil => exact List.forall_mem_nil _
  | cons a as ih =>
    rw [List.mapM_cons] at h
    obtain ⟨c, hc, h⟩ := bind_eq_ok.mp h
    obtain ⟨cs, hcs, -⟩ := bind_eq_ok.mp h
    exact List.forall_mem_cons.mpr ⟨⟨c, hc⟩, ih hcs⟩

/-- Computations in a row succeed if each of them does. -/
theorem exists_mapM_ok {as : List α} {f : α → Except ε α'} :
    (∃ cs, as.mapM f = .ok cs) ↔ ∀ a ∈ as, ∃ c, f a = .ok c := by
  refine ⟨fun ⟨_, h⟩ => mapM_eq_ok h, fun h => ?_⟩
  induction as with
  | nil => exact ⟨[], rfl⟩
  | cons a as ih =>
    obtain ⟨⟨c, hc⟩, hrest⟩ := List.forall_mem_cons.mp h
    obtain ⟨cs, hcs⟩ := ih hrest
    exact ⟨c :: cs, by rw [List.mapM_cons, hc, hcs]; rfl⟩

/-- Computations in a row fail with the first one that does. -/
theorem mapM_eq_error {as : List α} {f : α → Except ε α'} {e : ε} : as.mapM f = .error e ↔
    ∃ before a after, as = before ++ a :: after ∧ (∀ b ∈ before, ∃ c, f b = .ok c) ∧
      f a = .error e := by
  constructor
  · intro h
    induction as with
    | nil => cases h
    | cons a as ih =>
      rw [List.mapM_cons] at h
      obtain ha | ⟨c, hc, h⟩ := bind_eq_error.mp h
      · exact ⟨[], a, as, rfl, List.forall_mem_nil _, ha⟩
      · obtain hrest | ⟨cs, -, h⟩ := bind_eq_error.mp h
        · obtain ⟨before, b, after, rfl, hbefore, hb⟩ := ih hrest
          exact ⟨a :: before, b, after, rfl, List.forall_mem_cons.mpr ⟨⟨c, hc⟩, hbefore⟩, hb⟩
        · cases h
  · rintro ⟨before, a, after, rfl, hbefore, ha⟩
    induction before with
    | nil => rw [List.nil_append, List.mapM_cons, ha]; rfl
    | cons b before ih =>
      obtain ⟨⟨c, hc⟩, hbefore⟩ := List.forall_mem_cons.mp hbefore
      rw [List.cons_append, List.mapM_cons, hc, ih hbefore]
      rfl

/-! ### Two computations -/

/-- Both computations succeed, with related results, or both fail, for related reasons. -/
inductive Alike {ε ε' α β : Type} (E : ε → ε' → Prop) (R : α → β → Prop) :
    Except ε α → Except ε' β → Prop where
  | ok {a : α} {b : β} (h : R a b) : Alike E R (.ok a) (.ok b)
  | error {e : ε} {e' : ε'} (h : E e e') : Alike E R (.error e) (.error e')

variable {β β' : Type} {E : ε → ε' → Prop} {R : α → β → Prop} {R' : α' → β' → Prop}

theorem Alike.bind {r : Except ε α} {s : Except ε' β} {f : α → Except ε α'} {g : β → Except ε' β'}
    (h : Alike E R r s) (hf : ∀ a b, R a b → Alike E R' (f a) (g b)) :
    Alike E R' (r >>= f) (s >>= g) := by
  cases h with
  | ok h => exact hf _ _ h
  | error h => exact .error h

/-- A computation ends like itself. -/
theorem alike_self {E : ε → ε → Prop} (hE : ∀ e, E e e) (r : Except ε α) : Alike E (· = ·) r r := by
  cases r with
  | ok a => exact .ok rfl
  | error e => exact .error (hE e)

end FieldLang
