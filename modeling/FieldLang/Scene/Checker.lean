/-
Checking data against a schema.

* `Checked` : a value, or everything that is wrong;
* `Checked.both` : two checks, with the problems of either;
* `checkText`, `checkReal`, `checkWhole`, `checkTriple`, `checkRow` : single data;
* `required`, `optional` : the fields of a record;
* `Declared.check` : a datum of any declaration.

Design notes: a check does not stop at the first problem. Numbers may be written as texts,
and truth values count as one and zero.
-/
import FieldLang.Decimal.Reader
import FieldLang.Scene.Datum
import FieldLang.Scene.Schema

namespace FieldLang

/-- A value, or everything that is wrong. -/
abbrev Checked (α : Type) := Except (List SchemaProblem) α

namespace Checked

variable {α β : Type}

/-- The problems of a check. -/
def problems : Checked α → List SchemaProblem
  | .ok _ => []
  | .error ps => ps

/-- Two checks, with the problems of either. -/
def both (a : Checked α) (b : Checked β) : Checked (α × β) :=
  match a, b with
  | .ok x, .ok y => .ok (x, y)
  | a, b => .error (a.problems ++ b.problems)

/-- A row of checks, with the problems of any. -/
def all : List (Checked α) → Checked (List α)
  | [] => .ok []
  | c :: cs => (fun (x, xs) => x :: xs) <$> both c (all cs)

end Checked

/-- A check that finds a single fault. -/
def faultAt {α : Type} (place : Place) (fault : SchemaFault) : Checked α :=
  .error [⟨place, fault⟩]

/-! ### Single data -/

/-- A text. -/
def checkText (place : Place) : Datum → Checked String
  | .text s => .ok s
  | _ => faultAt place .notText

/-- A number. A whole number must be within the range of the doubles. -/
def checkReal (place : Place) : Datum → Checked Float
  | .real x => .ok x
  | .whole n =>
    let x := Decimal.ofRatio n.natAbs 1 0
    if Decimal.isFinite x then .ok (if n < 0 then -x else x) else faultAt place .notReal
  | .truth b => .ok (if b then 1 else 0)
  | .text s =>
    match Decimal.asciiNumber? (Text.trim s.toList) with
    | some x => .ok x
    | none => faultAt place .badReal
  | _ => faultAt place .notReal

/-- The whole number that a double is. -/
def wholeOfReal? (x : Float) : Option Int :=
  match Decimal.parts x with
  | .finite negative mag =>
    if mag.isWhole then some (if negative then -(mag.whole : Int) else mag.whole) else none
  | _ => none

/-- A text of a whole number without the zeros behind its point. -/
def dropZeroFraction (s : List Char) : List Char :=
  let whole := s.takeWhile (· != '.')
  let fraction := s.dropWhile (· != '.')
  if 1 < fraction.length && (fraction.drop 1).all (· == '0') then whole else s

/-- A whole number. -/
def checkWhole (place : Place) : Datum → Checked Int
  | .whole n => .ok n
  | .real x =>
    match wholeOfReal? x with
    | some n => .ok n
    | none => faultAt place (if Decimal.isFinite x then .brokenWhole else .infiniteWhole)
  | .truth b => .ok (if b then 1 else 0)
  | .text s =>
    match Decimal.asciiInteger? (dropZeroFraction (Text.trim s.toList)) with
    | some n => .ok n
    | none => faultAt place .badWhole
  | _ => faultAt place .notWhole

/-- A row of any data with the indices of its items. -/
def indexed (place : Place) (items : List Datum) : List (Place × Datum) :=
  items.zipIdx.map fun (d, i) => (toString i :: place, d)

/-- A row of any length. -/
def checkRow {α : Type} (check : Place → Datum → Checked α) (place : Place) :
    Datum → Checked (List α)
  | .row items => Checked.all ((indexed place items).map fun (place, d) => check place d)
  | _ => faultAt place .notRow

/-- An item of a row of a fixed length. -/
def checkItem {α : Type} (check : Place → Datum → Checked α) (place : Place)
    (items : List Datum) (i : Nat) : Checked α :=
  match items[i]? with
  | some d => check (toString i :: place) d
  | none => faultAt (toString i :: place) .missing

/-- A row of three coordinates. -/
def checkTriple (place : Place) : Datum → Checked Point
  | .row items =>
    if 3 < items.length then faultAt place .tooLong
    else
      let item := checkItem checkReal place items
      (fun (x, y, z) => ⟨x, y, z⟩) <$> (item 0).both ((item 1).both (item 2))
  | _ => faultAt place .notTuple

/-- A datum that may be null. -/
def nullable {α : Type} (check : Place → Datum → Checked α) (place : Place) :
    Datum → Checked (Option α)
  | .null => .ok none
  | d => some <$> check place d

/-! ### Records -/

/-- A record. -/
def checkRecord {α : Type} (check : Place → List (String × Datum) → Checked α) (place : Place) :
    Datum → Checked α
  | .record fields => check place fields
  | _ => faultAt place .notRecord

/-- A field that must be there. -/
def required {α : Type} (check : Place → Datum → Checked α) (place : Place)
    (fields : List (String × Datum)) (name : String) : Checked α :=
  match fields.lookup name with
  | some d => check (name :: place) d
  | none => faultAt (name :: place) .missing

/-- A field with a value for its absence. -/
def optional {α : Type} (check : Place → Datum → Checked α) (otherwise : α) (place : Place)
    (fields : List (String × Datum)) (name : String) : Checked α :=
  match fields.lookup name with
  | some d => check (name :: place) d
  | none => .ok otherwise

/-- A value, unless there are fields that are not known. -/
def withoutExtras {α : Type} (known : List String) (place : Place)
    (fields : List (String × Datum)) (c : Checked α) : Checked α :=
  let extras := (fields.map Prod.fst).filter fun name => !known.contains name
  let problems := extras.map fun name => ⟨name :: place, SchemaFault.extra⟩
  Prod.snd <$> Checked.both (if problems.isEmpty then .ok () else .error problems) c

/-! ### Declarations -/

mutual

/-- A datum, checked against a declaration. -/
def Declared.check {α : Type} (place : Place) (d : Datum) : Declared α → Checked α
  | .text => checkText place d
  | .real => checkReal place d
  | .whole => checkWhole place d
  | .choice names =>
    match d with
    | .text s =>
      match names.lookup s with
      | some a => .ok a
      | none => faultAt place .badChoice
    | _ => faultAt place .badChoice
  | .triple => checkTriple place d
  | .nullable type => nullable (fun place d => type.check place d) place d
  | .row type => checkRow (fun place d => type.check place d) place d
  | .refined type holds fault => do
    let a ← type.check place d
    if holds a then return a else faultAt place fault
  | .record fields make =>
    checkRecord (fun place entries =>
      withoutExtras fields.names place entries (make <$> fields.check place entries)) place d

/-- The entries of a record, checked against the declarations of its fields. -/
def Fields.check {γ : Type} (place : Place) (entries : List (String × Datum)) :
    Fields γ → Checked γ
  | .none => .ok ()
  | .field name type default more =>
    let first :=
      match default with
      | none => required (fun place d => type.check place d) place entries name
      | some a => optional (fun place d => type.check place d) a place entries name
    first.both (more.check place entries)

end

end FieldLang
