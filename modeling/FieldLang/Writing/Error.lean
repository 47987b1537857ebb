/-
Why a program cannot be written as source text.

* `WriteError` : the reasons, with their wording;
* `Ranked`, `Ranked.within` : a written expression, and the brackets that its place asks for.
-/
import FieldLang.Decimal.Notation
import FieldLang.Layout.Doc
import FieldLang.Syntax.Display

namespace FieldLang

/-- Why a program cannot be written. -/
inductive WriteError where
  | unknownTarget (target : String)
  | notIdentifier (name : String)
  | shadowsFunction (name : String)
  | noStatements
  | readOnly (name : String)
  | unspeakable (value : Float)
  | notExpression (display : String)
  | notStatement (display : String)
  | missingValue
  | badWidth (error : Layout.BadWidth)
deriving Repr

/-- The names of the targets. -/
def targetNames : List String := ["python", "dsl"]

/-- The wording of an error. -/
def WriteError.message : WriteError → String
  | unknownTarget target =>
    "Unknown target " ++ Text.quote target ++ " (known: " ++ ", ".intercalate targetNames ++ ")"
  | notIdentifier name => "Function name " ++ Text.quote name ++ " is not a Python identifier"
  | shadowsFunction name => "Function name " ++ Text.quote name ++ " shadows a runtime function"
  | noStatements => "Program has no statements to generate"
  | readOnly name => "Cannot assign to read-only parameter " ++ Text.quote name
  | unspeakable value =>
    "Number " ++ String.ofList (Decimal.literal value) ++ " has no sdfscript spelling"
  | notExpression display => "Not an expression: " ++ display
  | notStatement display => "Not a statement: " ++ display
  | missingValue => "tuple index out of range"
  | badWidth e => e.message

/-- A result of writing. -/
abbrev Written (α : Type) := Except WriteError α

namespace Writing

open Layout

/-- How many columns a nested line is indented. -/
def indentation : Int := 4

/-- The rank of an expression that never needs brackets. -/
def atomRank : Nat := 100

/-- A written expression and its rank among the operators. -/
structure Ranked where
  doc : Doc
  rank : Nat

/-- The expression in brackets if it binds less tightly than its place needs. -/
def Ranked.within (r : Ranked) (least : Nat) : Doc :=
  if r.rank < least then .concat [.text "(", r.doc, .text ")"] else r.doc

/-- A text as an expression that never needs brackets. -/
def atom (s : String) : Ranked := ⟨.text s, atomRank⟩

/-- Whether a number is written without a point because it is a moderate whole number. -/
def isShortWhole (mag : Decimal.Magnitude) : Bool := mag.isWhole && mag.whole < Nat.pow 10 16

end Writing

end FieldLang
