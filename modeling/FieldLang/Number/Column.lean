/-
Values at several points at once.

* `Column n α` : one value for all of `n` points, or a value for each of them;
* `Column.get` : the value at a point;
* `Column.map`, `Column.zipWith`, `Column.choose` : operations point by point;
* `get_map`, `get_zipWith`, `get_choose` : what they are at a point.

Design notes: that a value does not depend on the point is kept, because it can be told apart
when there are no points.
-/

namespace FieldLang

/-- A value for all points, or one for each. -/
inductive Column (n : Nat) (α : Type) where
  | const (a : α)
  | each (values : Vector α n)

namespace Column

variable {n : Nat} {α β γ : Type}

/-- The value at a point. -/
def get (c : Column n α) (i : Fin n) : α :=
  match c with
  | const a => a
  | each values => values[i]

/-- The values at all points, in order. -/
def toList (c : Column n α) : List α := (List.finRange n).map c.get

/-- A function of the value at each point. -/
def map (f : α → β) : Column n α → Column n β
  | const a => const (f a)
  | each values => each (values.map f)

/-- A function of two values at each point; constant if both are. -/
def zipWith (f : α → β → γ) : Column n α → Column n β → Column n γ
  | const a, const b => const (f a b)
  | x, y => each (Vector.ofFn fun i => f (x.get i) (y.get i))

/-- At each point the first value where the mask holds, and the second elsewhere. -/
def choose (mask : Column n Bool) (x y : Column n α) : Column n α :=
  match mask, x, y with
  | const b, const a, const a' => const (if b then a else a')
  | mask, x, y => each (Vector.ofFn fun i => if mask.get i then x.get i else y.get i)

/-- Whether the value does not depend on the point. -/
def isConst : Column n α → Bool
  | const _ => true
  | each _ => false

@[simp] theorem get_const (a : α) (i : Fin n) : (const a : Column n α).get i = a := rfl

@[simp] theorem get_each (values : Vector α n) (i : Fin n) :
    (each values).get i = values[i] := rfl

@[simp] theorem get_map (f : α → β) (c : Column n α) (i : Fin n) :
    (c.map f).get i = f (c.get i) := by
  cases c <;> simp [map]

@[simp] theorem get_zipWith (f : α → β → γ) (x : Column n α) (y : Column n β) (i : Fin n) :
    (zipWith f x y).get i = f (x.get i) (y.get i) := by
  cases x <;> cases y <;> simp [zipWith]

@[simp] theorem get_choose (mask : Column n Bool) (x y : Column n α) (i : Fin n) :
    (choose mask x y).get i = if mask.get i then x.get i else y.get i := by
  rcases mask with (_ | _) | _ <;> cases x <;> cases y <;> simp [choose]

end Column

end FieldLang
