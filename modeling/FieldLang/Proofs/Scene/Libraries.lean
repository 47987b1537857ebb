/-
What the libraries behind scenes promise.

* `IsJson`, `HasLongNumeral` : the texts that are read;
* `Declared.Admits` : the values that a declaration lets through;
* `Declared.IsValue` : data that are values of a declared type as they stand;
* `SceneLibrary.Documented` : what the documentation of a library says;
* `reference_documented` : the reference is such a library.

Design notes: the loading of scenes is about any library that keeps its promises. It may read more than
JSON, convert data to the types that are declared, and refuse them for reasons of its own. A default is
taken as it is, whatever its declaration asks of other values.
-/
import FieldLang.Proofs.Except
import FieldLang.Scene.Library
import Mathlib.Data.List.Forall2

namespace FieldLang

/-! ### Texts -/

/-- The text is JSON, in which a record may have two fields of one name. -/
def IsJson (text : List Char) : Prop := ∃ d, Datum.ofJson text = some d

/-- Digits that are too many to be read as a whole number. -/
def HasLongNumeral (text : List Char) : Prop :=
  ∃ digits, digits <:+: text ∧ (∀ c ∈ digits, c.isDigit = true) ∧
    Decimal.maxIntegerDigits < digits.length

/-! ### Declarations -/

mutual

/-- The values that a declaration lets through. -/
def Declared.Admits {α : Type} : Declared α → α → Prop
  | .text, _ | .real, _ | .whole, _ | .triple, _ => True
  | .choice names, a => ∃ name, names.lookup name = some a
  | .nullable type, o => ∀ a, o = some a → type.Admits a
  | .row type, as => ∀ a ∈ as, type.Admits a
  | .refined type holds _, a => type.Admits a ∧ holds a = true
  | .record fields make, a => ∃ c, fields.Admits c ∧ make c = a

/-- The values of fields, each of which is let through or the default. -/
def Fields.Admits {γ : Type} : Fields γ → γ → Prop
  | .none, _ => True
  | .field _ type default more, (a, c) => (type.Admits a ∨ default = some a) ∧ more.Admits c

end

mutual

/-- The datum is a value of the declared type, with nothing left to convert. -/
def Declared.IsValue {α : Type} : Declared α → Datum → α → Prop
  | .text, d, s => d = .text s
  | .real, d, x => d = .real x
  | .whole, d, n => d = .whole n
  | .choice names, d, a => ∃ name, d = .text name ∧ names.lookup name = some a
  | .triple, d, p => d = .row [.real p.x, .real p.y, .real p.z]
  | .nullable type, d, o => d = .null ∧ o = none ∨ d ≠ .null ∧ ∃ a, o = some a ∧ type.IsValue d a
  | .row type, d, as => ∃ ds, d = .row ds ∧ List.Forall₂ (fun d a => type.IsValue d a) ds as
  | .refined type holds _, d, a => type.IsValue d a ∧ holds a = true
  | .record fields make, d, a => ∃ entries c, d = .record entries ∧
      (∀ e ∈ entries, e.1 ∈ fields.names) ∧ fields.AreValues entries c ∧ make c = a

/-- The entries hold values of the fields, or leave out those that have a default. -/
def Fields.AreValues {γ : Type} : Fields γ → List (String × Datum) → γ → Prop
  | .none, _, _ => True
  | .field name type default more, entries, (a, c) =>
    (match entries.lookup name with
      | some d => type.IsValue d a
      | none => default = some a) ∧ more.AreValues entries c

end

/-! ### Promises -/

/-- What is documented of a library that loads scenes. -/
structure SceneLibrary.Documented (library : SceneLibrary) : Prop where
  /-- The reader refuses texts of JSON by errors of its own only, unless a numeral is too long. -/
  load_raises : ∀ text, IsJson text → ¬HasLongNumeral text →
    ∀ kind, library.load text ≠ .error (.other kind)
  /-- The validator refuses data by errors of its own only. -/
  validate_raises : ∀ {α : Type} (type : Declared α) (d : Datum) (kind : String),
    library.validate type d ≠ .error (.other kind)
  /-- What is validated is as it was declared. -/
  validate_admits : ∀ {α : Type} (type : Declared α) (d : Datum) (a : α),
    library.validate type d = .ok a → type.Admits a
  /-- Data that are values already are validated as they are. -/
  validate_value : ∀ {α : Type} (type : Declared α) (d : Datum) (a : α),
    type.IsValue d a → library.validate type d = .ok a

/-! ### Checks -/

section Checks

variable {α β : Type} {place : Place} {a : α}

/-- Some datum is checked to have the value. -/
def PassesCheck (check : Place → Datum → Checked α) (a : α) : Prop :=
  ∃ place d, check place d = .ok a

theorem Checked.both_eq_ok {c : Checked α} {c' : Checked β} {x : α} {y : β} :
    c.both c' = .ok (x, y) ↔ c = .ok x ∧ c' = .ok y := by
  cases c with
  | ok x' =>
    cases c' with
    | ok y' => simp [both]
    | error ps => simp [both]
  | error ps => simp [both]

theorem Checked.all_eq_ok {cs : List (Checked α)} {as : List α} :
    Checked.all cs = .ok as ↔ List.Forall₂ (fun c a => c = .ok a) cs as := by
  induction cs generalizing as with
  | nil =>
    rw [List.forall₂_nil_left_iff]
    exact ⟨fun h => (Except.ok.inj h).symm, fun h => h ▸ rfl⟩
  | cons c cs ih =>
    rw [all, map_eq_ok, List.forall₂_cons_left_iff]
    constructor
    · rintro ⟨⟨x, xs⟩, hboth, rfl⟩
      obtain ⟨hx, hxs⟩ := both_eq_ok.mp hboth
      exact ⟨x, xs, hx, ih.mp hxs, rfl⟩
    · rintro ⟨x, xs, hx, hxs, rfl⟩
      exact ⟨(x, xs), both_eq_ok.mpr ⟨hx, ih.mpr hxs⟩, rfl⟩

theorem withoutExtras_eq_ok {known : List String} {entries : List (String × Datum)}
    {c : Checked α} : withoutExtras known place entries c = .ok a ↔
      (∀ e ∈ entries, e.1 ∈ known) ∧ c = .ok a := by
  have hextras : ((entries.map Prod.fst).filter fun name => !known.contains name) = [] ↔
      ∀ e ∈ entries, e.1 ∈ known := by
    simp [List.filter_eq_nil_iff]
  rw [withoutExtras, map_eq_ok]
  by_cases hnone : ((entries.map Prod.fst).filter fun name => !known.contains name) = []
  · simp only [hnone, List.map_nil, List.isEmpty_nil, if_true]
    refine ⟨?_, fun h => ⟨((), a), Checked.both_eq_ok.mpr ⟨rfl, h.2⟩, rfl⟩⟩
    rintro ⟨⟨⟨⟩, b⟩, hboth, rfl⟩
    exact ⟨hextras.mp hnone, (Checked.both_eq_ok.mp hboth).2⟩
  · rw [if_neg (by simpa using hnone)]
    refine ⟨?_, fun h => absurd (hextras.mpr h.1) hnone⟩
    rintro ⟨⟨⟨⟩, b⟩, hboth, -⟩
    cases (Checked.both_eq_ok.mp hboth).1

variable {check : Place → Datum → Checked α} {entries : List (String × Datum)} {name : String}

theorem passes_of_nullable {d : Datum} {o : Option α} (h : nullable check place d = .ok o) :
    ∀ a, o = some a → PassesCheck check a := by
  rintro a rfl
  cases d with
  | null => cases h
  | _ =>
    obtain ⟨b, hb, heq⟩ := map_eq_ok.mp h
    obtain rfl : b = a := Option.some.inj heq
    exact ⟨_, _, hb⟩

theorem passes_of_row {d : Datum} {as : List α} (h : checkRow check place d = .ok as) :
    ∀ a ∈ as, PassesCheck check a := by
  cases d with
  | row items =>
    have hitems := List.forall₂_map_left_iff.mp (Checked.all_eq_ok.mp h)
    clear h
    generalize indexed place items = xs at hitems
    induction hitems with
    | nil => exact nofun
    | cons hfirst _ ih => exact List.forall_mem_cons.mpr ⟨⟨_, _, hfirst⟩, ih⟩
  | _ => cases h

theorem passes_of_required (h : required check place entries name = .ok a) : PassesCheck check a := by
  rw [required] at h
  split at h
  · exact ⟨_, _, h⟩
  · cases h

theorem passes_of_optional {otherwise : α} (h : optional check otherwise place entries name = .ok a) :
    PassesCheck check a ∨ otherwise = a := by
  rw [optional] at h
  split at h
  · exact .inl ⟨_, _, h⟩
  · exact .inr (Except.ok.inj h)

/-- A row of values is checked as it is. -/
theorem checkRow_eq_ok {ds : List Datum} {as : List α}
    (h : List.Forall₂ (fun d a => ∀ place, check place d = .ok a) ds as) :
    checkRow check place (.row ds) = .ok as := by
  rw [checkRow, Checked.all_eq_ok, indexed, List.map_map]
  generalize 0 = i
  induction h generalizing i with
  | nil => exact .nil
  | cons hfirst _ ih => exact .cons (hfirst _) (ih (i + 1))

end Checks

/-! ### The reference -/

mutual

/-- What passes a check is let through by the declaration. -/
theorem Declared.admits_of_check {α : Type} {place : Place} {d : Datum} {a : α} :
    (type : Declared α) → type.check place d = .ok a → type.Admits a
  | .text, _ | .real, _ | .whole, _ | .triple, _ => trivial
  | .choice names, h => by
    cases d with
    | text s =>
      rw [Declared.check] at h
      split at h
      · next b hb => exact ⟨s, Except.ok.inj h ▸ hb⟩
      · cases h
    | _ => cases h
  | .nullable type, h => fun a ha =>
    have ⟨_, _, hpass⟩ := passes_of_nullable h a ha
    type.admits_of_check hpass
  | .row type, h => fun a ha =>
    have ⟨_, _, hpass⟩ := passes_of_row h a ha
    type.admits_of_check hpass
  | .refined type holds fault, h => by
    obtain ⟨b, hb, h⟩ := bind_eq_ok.mp h
    split at h
    · next hholds =>
      cases h
      exact ⟨type.admits_of_check hb, hholds⟩
    · cases h
  | .record fields make, h => by
    cases d with
    | record entries =>
      obtain ⟨c, hc, rfl⟩ := map_eq_ok.mp (withoutExtras_eq_ok.mp h).2
      exact ⟨c, fields.admits_of_check hc, rfl⟩
    | _ => cases h

theorem Fields.admits_of_check {γ : Type} {place : Place} {entries : List (String × Datum)} {c : γ} :
    (fields : Fields γ) → fields.check place entries = .ok c → fields.Admits c
  | .none, _ => trivial
  | .field name type default more, h => by
    obtain ⟨a, c⟩ := c
    obtain ⟨hfirst, hmore⟩ := Checked.both_eq_ok.mp h
    refine ⟨?_, more.admits_of_check hmore⟩
    cases default with
    | none =>
      obtain ⟨_, _, hpass⟩ := passes_of_required hfirst
      exact .inl (type.admits_of_check hpass)
    | some b =>
      obtain ⟨_, _, hpass⟩ | rfl := passes_of_optional hfirst
      · exact .inl (type.admits_of_check hpass)
      · exact .inr rfl

end

mutual

/-- A value passes the check of its declaration. -/
theorem Declared.check_of_isValue {α : Type} {d : Datum} {a : α} (place : Place) :
    (type : Declared α) → type.IsValue d a → type.check place d = .ok a
  | .text, h | .real, h | .whole, h => by
    obtain rfl := h
    rfl
  | .choice names, h => by
    obtain ⟨name, rfl, hname⟩ := h
    simp only [Declared.check, hname]
  | .triple, h => by
    obtain rfl := h
    rfl
  | .nullable type, h => by
    obtain ⟨rfl, rfl⟩ | ⟨hd, a, rfl, ha⟩ := h
    · rfl
    · have hcheck := type.check_of_isValue place ha
      cases d with
      | null => exact absurd rfl hd
      | _ => exact map_eq_ok.mpr ⟨a, hcheck, rfl⟩
  | .row type, h => by
    obtain ⟨ds, rfl, has⟩ := h
    exact checkRow_eq_ok (has.imp fun _ _ ha place => type.check_of_isValue place ha)
  | .refined type holds fault, h => by
    obtain ⟨ha, hholds⟩ := h
    rw [Declared.check, type.check_of_isValue place ha]
    exact if_pos hholds
  | .record fields make, h => by
    obtain ⟨entries, c, rfl, hknown, hc, rfl⟩ := h
    exact withoutExtras_eq_ok.mpr ⟨hknown,
      map_eq_ok.mpr ⟨c, fields.check_of_areValues place hc, rfl⟩⟩

theorem Fields.check_of_areValues {γ : Type} {entries : List (String × Datum)} {c : γ}
    (place : Place) : (fields : Fields γ) → fields.AreValues entries c →
      fields.check place entries = .ok c
  | .none, _ => rfl
  | .field name type default more, h => by
    obtain ⟨a, c⟩ := c
    obtain ⟨hfirst, hmore⟩ := h
    refine Checked.both_eq_ok.mpr ⟨?_, more.check_of_areValues place hmore⟩
    -- the entry is there, or there is a default
    cases hentry : entries.lookup name with
    | some d =>
      rw [hentry] at hfirst
      have hcheck := type.check_of_isValue (name :: place) hfirst
      cases default with
      | none => simp only [required, hentry, hcheck]
      | some b => simp only [optional, hentry, hcheck]
    | none =>
      rw [hentry] at hfirst
      obtain rfl : default = some a := hfirst
      simp only [optional, hentry]

end

/-- The reference is as libraries are documented to be. -/
theorem reference_documented : SceneLibrary.reference.Documented where
  load_raises text _ _ kind h := by
    change loadJson text = .error (.other kind) at h
    rw [loadJson] at h
    split at h
    · cases h
    split at h
    · split at h <;> cases h
    · cases h
  validate_raises type d kind h := by
    obtain ⟨problems, -, heq⟩ := mapError_eq_error.mp h
    cases heq
  validate_admits type d a h := type.admits_of_check (mapError_eq_ok.mp h)
  validate_value type d a h := mapError_eq_ok.mpr (type.check_of_isValue [] h)

end FieldLang
