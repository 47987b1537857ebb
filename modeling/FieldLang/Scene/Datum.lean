/-
Data in the text of a scene.

* `Datum` : null, truth values, numbers, texts, rows and records;
* `Datum.display` : a datum as it is shown inside another one;
* `Datum.asText` : a datum taken for a text.

Design notes: whole numbers and other numbers are told apart by how they are written, and
the fields of a record keep their order.
-/
import FieldLang.Decimal.Notation
import FieldLang.Text.Quoted

namespace FieldLang

/-- A piece of data. -/
inductive Datum where
  | null
  | truth (b : Bool)
  | whole (n : Int)
  | real (x : Float)
  | text (s : String)
  | row (items : List Datum)
  | record (fields : List (String × Datum))
deriving Repr, Inhabited

namespace Datum

mutual

/-- How a datum is shown inside another one. -/
def display : Datum → String
  | .null => "None"
  | .truth b => if b then "True" else "False"
  | .whole n => toString n
  | .real x => String.ofList (Decimal.literal x)
  | .text s => Text.quote s
  | .row items => "[" ++ ", ".intercalate (displayItems items) ++ "]"
  | .record fields => "\x7b" ++ ", ".intercalate (displayFields fields) ++ "\x7d"

/-- How the items of a row are shown. -/
def displayItems : List Datum → List String
  | [] => []
  | d :: ds => d.display :: displayItems ds

/-- How the fields of a record are shown. -/
def displayFields : List (String × Datum) → List String
  | [] => []
  | (name, d) :: fields => (Text.quote name ++ ": " ++ d.display) :: displayFields fields

end

/-- A datum taken for a text. -/
def asText : Datum → String
  | .text s => s
  | d => d.display

end Datum

end FieldLang
