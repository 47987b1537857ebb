/-
Coded diagnostics, and computations that report them.

* `Warning` : the three things a source text is warned about, each belonging to one stage;
* `Diagnostic` : a warning with its wording and, when known, the offset it points at;
* `Reporting` : a computation that reports diagnostics in order and then succeeds or fails;
* `located` : the wording of a message that points at an offset.

Design notes: what a failed computation had reported before it failed is kept, so the order
of reports and failures can be stated.
-/

namespace FieldLang

/-- A message followed by the offset it points at, if there is one. -/
def located (text : String) : Option Nat → String
  | none => text
  | some offset => text ++ " (at offset " ++ toString offset ++ ")"

/-- The stages that report diagnostics. -/
inductive Stage where
  | unrolling
  | parsing
deriving Repr, DecidableEq

/-- What a source text can be warned about. -/
inductive Warning where
  | unusedLetter
  | repeatedLetter
  | noResult
deriving Repr, DecidableEq

namespace Warning

/-- Every warning, in the order of the codes. -/
def all : List Warning := [unusedLetter, repeatedLetter, noResult]

/-- The code that options use for a warning. -/
def code : Warning → String
  | unusedLetter => "W01"
  | repeatedLetter => "W02"
  | noResult => "W03"

/-- What the code stands for. -/
def summary : Warning → String
  | unusedLetter => "letter loop body has no '$' placeholder"
  | repeatedLetter => "letter loop repeats a letter"
  | noResult => "program does not end with an expression"

/-- The stage whose failure the warning becomes when it is promoted. -/
def stage : Warning → Stage
  | unusedLetter => .unrolling
  | repeatedLetter => .unrolling
  | noResult => .parsing

/-- The warning with a given code. -/
def ofCode? (code : String) : Option Warning := all.find? fun w => w.code == code

theorem mem_all (w : Warning) : w ∈ all := by cases w <;> decide

end Warning

/-- A warning about a source text. -/
structure Diagnostic where
  warning : Warning
  text : String
  position : Option Nat := none
deriving Repr, DecidableEq

/-- The wording of a diagnostic, after its code. -/
def Diagnostic.message (d : Diagnostic) : String := "[" ++ d.warning.code ++ "] " ++ d.text

/-- A computation that reports diagnostics and then succeeds or fails. -/
structure Reporting (ε α : Type) where
  reported : List Diagnostic
  outcome : Except ε α

namespace Reporting

variable {ε ε' α β : Type}

/-- Succeeds without a report. -/
protected def pure (a : α) : Reporting ε α := ⟨[], .ok a⟩

/-- Fails without a report. -/
def fail (e : ε) : Reporting ε α := ⟨[], .error e⟩

/-- Runs the second computation after the first one's reports, if the first one succeeds. -/
protected def bind (r : Reporting ε α) (f : α → Reporting ε β) : Reporting ε β :=
  match r.outcome with
  | .ok a => ⟨r.reported ++ (f a).reported, (f a).outcome⟩
  | .error e => ⟨r.reported, .error e⟩

instance : Monad (Reporting ε) where
  pure := Reporting.pure
  bind := Reporting.bind

/-- A computation that reports nothing. -/
def ofExcept (r : Except ε α) : Reporting ε α := ⟨[], r⟩

/-- The same reports, with failures in another type. -/
def mapError (f : ε → ε') (r : Reporting ε α) : Reporting ε' α :=
  ⟨r.reported, r.outcome.mapError f⟩

@[simp] theorem pure_eq (a : α) : (pure a : Reporting ε α) = ⟨[], .ok a⟩ := rfl

@[simp] theorem bind_ok (ds : List Diagnostic) (a : α) (f : α → Reporting ε β) :
    (⟨ds, .ok a⟩ : Reporting ε α) >>= f = ⟨ds ++ (f a).reported, (f a).outcome⟩ := rfl

@[simp] theorem bind_error (ds : List Diagnostic) (e : ε) (f : α → Reporting ε β) :
    (⟨ds, .error e⟩ : Reporting ε α) >>= f = ⟨ds, .error e⟩ := rfl

end Reporting

end FieldLang
