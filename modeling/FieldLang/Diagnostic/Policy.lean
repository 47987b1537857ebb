/-
How a run treats diagnostics.

A policy names warnings that count as failures and warnings that are dropped; dropping wins.
All others are reported.

* `CodeSet` : a set of codes;
* `Policy` : the two sets of codes;
* `Policy.ofOptions` : a policy from two comma-separated lists of codes, or none when both
  lists are absent;
* `report` : a diagnostic under an optional policy.

Design notes: policies are compared by what they hold, so a set of codes is kept in order, and equal
sets are equal. A set may hold codes that no warning has. Options do not name such codes, but two
policies that differ in them are different.
-/
import FieldLang.Diagnostic.Basic
import FieldLang.Text.Blank
import FieldLang.Text.Quoted
import FieldLang.Text.Split
import FieldLang.Text.UpperCase

namespace FieldLang

/-- A set of codes, in the order of their characters. -/
structure CodeSet where
  codes : List String := []
  sorted : codes.Pairwise (· < ·) := by decide
deriving Repr, DecidableEq

namespace CodeSet

/-- A warning is in the set if its code is. -/
instance : Membership Warning CodeSet := ⟨fun s w => w.code ∈ s.codes⟩

instance (w : Warning) (s : CodeSet) : Decidable (w ∈ s) :=
  inferInstanceAs (Decidable (w.code ∈ s.codes))

/-- The warnings in a set, in the order of all warnings. -/
def warnings (s : CodeSet) : List Warning := Warning.all.filter (· ∈ s)

instance : CoeOut CodeSet (List Warning) := ⟨warnings⟩

/-- The codes of some warnings. -/
def ofWarnings (ws : List Warning) : CodeSet where
  codes := (Warning.all.filter (· ∈ ws)).map Warning.code
  sorted := .sublist (List.filter_sublist.map Warning.code) (by decide)

end CodeSet

/-- Which codes count as failures and which are dropped. -/
structure Policy where
  promoted : CodeSet := {}
  suppressed : CodeSet := {}
deriving Repr, DecidableEq

/-- A code that no warning has. -/
structure UnknownCode where
  code : String
deriving Repr, DecidableEq

/-- The wording shows the code in quotes and lists the codes there are. -/
def UnknownCode.message (e : UnknownCode) : String :=
  let known := Warning.all.map fun w => w.code ++ " (" ++ w.summary ++ ")"
  "Unknown warning code: " ++ Text.quote e.code ++ " (known: " ++ ", ".intercalate known ++ ")"

namespace Policy

/-- The codes in a comma-separated list, in upper case and without blanks around them. -/
def codesIn (list : List Char) : List String :=
  ((Text.split ',' list).map fun piece => String.ofList (Text.upper (Text.trim piece))).filter
    (· != "")

/-- The first of some codes in the order of their characters. -/
def leastCode? : List String → Option String
  | [] => none
  | c :: rest =>
    match leastCode? rest with
    | none => some c
    | some least => some (if least < c then least else c)

/-- The set of warnings that a comma-separated list of codes names. Of several unknown codes
the least one is the failure. -/
def warningsIn (list : String) : Except UnknownCode (List Warning) :=
  let codes := codesIn list.toList
  match leastCode? (codes.filter fun c => (Warning.ofCode? c).isNone) with
  | some c => .error ⟨c⟩
  | none => .ok (Warning.all.filter fun w => codes.contains w.code)

/-- The policy that two lists of codes ask for; no policy if neither is given. -/
def ofOptions (promote suppress : Option String) : Except UnknownCode (Option Policy) :=
  match promote, suppress with
  | none, none => .ok none
  | _, _ => do
    let promoted ← warningsIn (promote.getD "")
    let suppressed ← warningsIn (suppress.getD "")
    return some { promoted := .ofWarnings promoted, suppressed := .ofWarnings suppressed }

end Policy

/-- Reports a diagnostic, unless the policy drops it or makes it a failure. -/
def report {ε : Type} (policy : Option Policy) (d : Diagnostic) (failure : Diagnostic → ε) :
    Reporting ε Unit :=
  match policy with
  | none => ⟨[d], .ok ()⟩
  | some p =>
    if d.warning ∈ p.suppressed then ⟨[], .ok ()⟩
    else if d.warning ∈ p.promoted then ⟨[], .error (failure d)⟩
    else ⟨[d], .ok ()⟩

end FieldLang
