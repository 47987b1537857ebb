/-
Schemas of data.

* `SchemaFault`, `SchemaProblem` : what can be wrong with a datum, and where it stands;
* `Declared` : the type that a datum is declared to have;
* `Fields` : the declarations of the fields of a record.

Design notes: a declaration is data itself, so that what validates against it can be taken as it comes.
A field without a default must be there, and a record has no fields but the declared ones.
-/
import FieldLang.Eval.Field

namespace FieldLang

/-! ### Faults -/

/-- What is wrong with a datum. -/
inductive SchemaFault where
  | missing
  | extra
  | notText
  | notReal
  | badReal
  | notWhole
  | badWhole
  | brokenWhole
  | infiniteWhole
  | notPositive
  | negative
  | badChoice
  | notTuple
  | tooLong
  | notRow
  | notRecord
  | badValue
deriving Repr, DecidableEq

/-- The code of a fault. -/
def SchemaFault.code : SchemaFault → String
  | missing => "missing"
  | extra => "extra_forbidden"
  | notText => "string_type"
  | notReal => "float_type"
  | badReal => "float_parsing"
  | notWhole => "int_type"
  | badWhole => "int_parsing"
  | brokenWhole => "int_from_float"
  | infiniteWhole => "finite_number"
  | notPositive => "greater_than"
  | negative => "greater_than_equal"
  | badChoice => "literal_error"
  | notTuple => "tuple_type"
  | tooLong => "too_long"
  | notRow => "list_type"
  | notRecord => "model_type"
  | badValue => "value_error"

/-- The names and indices that lead to a datum, the last one first. -/
abbrev Place := List String

/-- A fault and where it is. -/
structure SchemaProblem where
  place : Place
  fault : SchemaFault
deriving Repr, DecidableEq

/-- The place in words. -/
def SchemaProblem.placeText (p : SchemaProblem) : String := ".".intercalate p.place.reverse

/-! ### Declarations -/

mutual

/-- The declaration of a value of a type. -/
inductive Declared : Type → Type 1 where
  | text : Declared String
  | real : Declared Float
  | whole : Declared Int
  /-- One of some texts, each of which stands for a value. -/
  | choice {α : Type} (names : List (String × α)) : Declared α
  /-- A row of three numbers. -/
  | triple : Declared Point
  /-- A value or null. -/
  | nullable {α : Type} (type : Declared α) : Declared (Option α)
  /-- A row of values. -/
  | row {α : Type} (type : Declared α) : Declared (List α)
  /-- A value of which something else holds, too; otherwise it has a fault. -/
  | refined {α : Type} (type : Declared α) (holds : α → Bool) (fault : SchemaFault) : Declared α
  /-- A value that is made from the fields of a record. -/
  | record {α γ : Type} (fields : Fields γ) (make : γ → α) : Declared α

/-- The declarations of the fields of a record, with the values of those that may be absent. -/
inductive Fields : Type → Type 1 where
  | none : Fields Unit
  | field {α γ : Type} (name : String) (type : Declared α) (default : Option α) (more : Fields γ) :
      Fields (α × γ)

end

/-- The names of the fields. -/
def Fields.names {γ : Type} : Fields γ → List String
  | .none => []
  | .field name _ _ more => name :: more.names

end FieldLang
