/-
Paths of files.

* `Path` : the parts of a path;
* `Path.ofText`, `Path.text` : reading and writing a path;
* `Path.fileName`, `Path.stem` : its last part, with and without the suffix;
* `Path.isScene` : whether it names a scene.

Design notes: a part that is a single point or nothing does not count, and neither does a
slash at the end.
-/
import FieldLang.Text.Split

namespace FieldLang

/-- A path. -/
structure Path where
  absolute : Bool
  parts : List String
deriving Repr, DecidableEq

namespace Path

/-- The path that a text stands for. -/
def ofText (s : String) : Path :=
  let pieces := (Text.split '/' s.toList).map String.ofList
  ⟨s.toList.head? == some '/', pieces.filter fun piece => piece != "" && piece != "."⟩

/-- The path as a text. -/
def text (p : Path) : String :=
  let parts := "/".intercalate p.parts
  if p.absolute then "/" ++ parts else if p.parts.isEmpty then "." else parts

/-- The last part. -/
def fileName (p : Path) : String := p.parts.getLast?.getD ""

/-- The last part without its suffix. -/
def stem (p : Path) : String :=
  let name := p.fileName.toList
  let suffix := (name.reverse.takeWhile (· != '.')).length
  if suffix = 0 ∨ name.length ≤ suffix + 1 then p.fileName
  else String.ofList (name.take (name.length - suffix - 1))

/-- The endings of the names of scenes. -/
def sceneEndings : List String := [".sdf.yaml", ".sdf.yml"]

/-- Whether the path names a scene. -/
def isScene (p : Path) : Bool :=
  sceneEndings.any fun ending => ending.toList.isSuffixOf p.fileName.toList

end Path

end FieldLang
