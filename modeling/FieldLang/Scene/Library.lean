/-
What the loading of scenes takes from libraries.

* `Raised` : what a call into a library raises;
* `SceneLibrary` : a reader of texts, and a validator of data;
* `SceneLibrary.reference` : JSON, checked by the rules of `Declared.check`.

Design notes: scenes are loaded through any library. The reference is there for programs to run, and
reads no texts but JSON.
-/
import FieldLang.Scene.Checker
import FieldLang.Scene.Reader

namespace FieldLang

/-- What a call into a library raises: an error of its own, or an exception of any other kind. -/
inductive Raised (ε : Type) where
  | own (error : ε)
  | other (kind : String)
deriving Repr, DecidableEq

/-- The functions of libraries that the loading of scenes calls. -/
structure SceneLibrary where
  /-- The data that a text stands for. -/
  load : List Char → Except (Raised Unit) Datum
  /-- The value that a datum has by its declaration. -/
  validate : {α : Type} → Declared α → Datum → Except (Raised (List SchemaProblem)) α

/-- The data in a text of JSON. Nothing at all counts as null, and no record has a field twice. -/
def loadJson (text : List Char) : Except (Raised Unit) Datum :=
  if (Datum.skip text).isEmpty then .ok .null
  else
    match Datum.ofJson text with
    | some d => if d.hasDistinctNames then .ok d else .error (.own ())
    | none => .error (.own ())

/-- A library that stands for others. -/
def SceneLibrary.reference : SceneLibrary where
  load := loadJson
  validate type d := (type.check [] d).mapError .own

end FieldLang
