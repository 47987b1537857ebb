/-
Documents that can be laid out in a given width.

* `Doc` : texts, places to break a line, nesting and groups;
* `Doc.joined`, `Doc.bracketed` : rows of documents;
* `Doc.size` : the number of nodes;
* `fits`, `Doc.render` : the layout of a document.

Design notes: a document is laid out by a machine that works off a stack of frames, a
document each with its indentation and whether it is laid flat. A group that is not laid
flat by the one around it is laid flat if it, and what follows it up to the next break,
fits in the rest of the line. Both the machine and the look-ahead make the stack smaller,
counted in nodes.
-/
import FieldLang.Text.Blank
import FieldLang.Text.Split

namespace FieldLang.Layout

/-- A document. -/
inductive Doc where
  | text (s : String)
  /-- A place to break the line; laid flat it is the text `flat`, unless it is hard. -/
  | line (flat : String) (hard : Bool)
  | nest (indent : Int) (doc : Doc)
  | group (doc : Doc)
  | concat (parts : List Doc)
deriving Repr, Inhabited

namespace Doc

/-- A break, or a space when laid flat. -/
def space : Doc := line " " false

/-- A break, or nothing when laid flat. -/
def softLine : Doc := line "" false

/-- A break that is never laid flat. -/
def hardLine : Doc := line "" true

/-- The document without content. -/
def nil : Doc := concat []

/-- Documents with a separator between any two of them. -/
def joined (separator : Doc) : List Doc → Doc
  | [] => concat []
  | first :: rest => concat (first :: rest.flatMap fun doc => [separator, doc])

/-- Items between an opening and a closing text, one per line when they do not fit. -/
def bracketed (opening : String) (items : List Doc) (closing : String) (indent : Int) : Doc :=
  match items with
  | [] => text (opening ++ closing)
  | items =>
    let body := joined (concat [text ",", space]) items
    group (concat
      [text opening, nest indent (concat [softLine, body]), softLine, text closing])

mutual

/-- The number of nodes. -/
def size : Doc → Nat
  | text _ => 1
  | line _ _ => 1
  | nest _ doc => doc.size + 1
  | group doc => doc.size + 1
  | concat parts => sizeAll parts + 1

/-- The number of nodes of a row of documents. -/
def sizeAll : List Doc → Nat
  | [] => 0
  | doc :: docs => doc.size + sizeAll docs

end

end Doc

/-! ### Layout -/

/-- A document that is still to be laid out. -/
structure Frame where
  indent : Int
  flat : Bool
  doc : Doc

/-- The number of nodes on a stack. -/
def stackSize : List Frame → Nat
  | [] => 0
  | f :: fs => f.doc.size + stackSize fs

/-- The frames of the parts of a document. -/
def framesOf (indent : Int) (flat : Bool) (parts : List Doc) : List Frame :=
  parts.map fun doc => ⟨indent, flat, doc⟩

theorem stackSize_append (fs gs : List Frame) :
    stackSize (fs ++ gs) = stackSize fs + stackSize gs := by
  induction fs with
  | nil => simp [stackSize]
  | cons f fs ih => simp [stackSize, ih, Nat.add_assoc]

theorem stackSize_framesOf (indent : Int) (flat : Bool) (parts : List Doc) :
    stackSize (framesOf indent flat parts) = Doc.sizeAll parts := by
  induction parts with
  | nil => rfl
  | cons doc docs ih =>
    rw [framesOf] at ih
    simp [framesOf, stackSize, Doc.sizeAll, ih]

/-- Whether everything up to the next break that is not laid flat takes at most `remaining`
columns. A hard break inside something that is to be laid flat does not fit. -/
def fits (remaining : Int) (stack : List Frame) : Bool :=
  if remaining < 0 then false
  else
    match stack with
    | [] => true
    | ⟨_, _, .text s⟩ :: rest => fits (remaining - s.length) rest
    | ⟨indent, flat, .concat parts⟩ :: rest => fits remaining (framesOf indent flat parts ++ rest)
    | ⟨indent, flat, .nest more doc⟩ :: rest => fits remaining (⟨indent + more, flat, doc⟩ :: rest)
    | ⟨_, flat, .line _ true⟩ :: _ => !flat
    | ⟨_, false, .line _ false⟩ :: _ => true
    | ⟨_, true, .line s false⟩ :: rest => fits (remaining - s.length) rest
    | ⟨indent, flat, .group doc⟩ :: rest => fits remaining (⟨indent, flat, doc⟩ :: rest)
termination_by stackSize stack
decreasing_by
  all_goals simp [stackSize, stackSize_append, stackSize_framesOf, Doc.size]

/-- Lays out the documents on a stack, the line being filled up to `column`. -/
def layOut (width column : Int) (stack : List Frame) : List Char :=
  match stack with
  | [] => []
  | ⟨_, _, .text s⟩ :: rest => s.toList ++ layOut width (column + s.length) rest
  | ⟨indent, flat, .concat parts⟩ :: rest =>
    layOut width column (framesOf indent flat parts ++ rest)
  | ⟨indent, flat, .nest more doc⟩ :: rest =>
    layOut width column (⟨indent + more, flat, doc⟩ :: rest)
  | ⟨_, true, .line s false⟩ :: rest => s.toList ++ layOut width (column + s.length) rest
  | ⟨indent, _, .line _ _⟩ :: rest =>
    '\n' :: (List.replicate indent.toNat ' ' ++ layOut width indent rest)
  | ⟨indent, true, .group doc⟩ :: rest => layOut width column (⟨indent, true, doc⟩ :: rest)
  | ⟨indent, false, .group doc⟩ :: rest =>
    let flat := fits (width - column) (⟨indent, true, doc⟩ :: rest)
    layOut width column (⟨indent, flat, doc⟩ :: rest)
termination_by stackSize stack
decreasing_by
  all_goals simp [stackSize, stackSize_append, stackSize_framesOf, Doc.size]

/-- A width in which nothing can be laid out. -/
structure BadWidth where
  width : Int
deriving Repr, DecidableEq

/-- The wording of the error. -/
def BadWidth.message (e : BadWidth) : String := "Width must be positive, got " ++ toString e.width

/-- The text of a document, within `width` columns where possible. No line ends in blanks. -/
def Doc.render (width : Int) (doc : Doc) : Except BadWidth (List Char) :=
  if width ≤ 0 then .error ⟨width⟩
  else .ok (Text.join '\n' ((Text.split '\n' (layOut width 0 [⟨0, false, doc⟩])).map Text.trimEnd))

end FieldLang.Layout
