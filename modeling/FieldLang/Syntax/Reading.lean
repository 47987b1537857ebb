/-
What a reader of a row of items returns.

* `Taken` : a value read from the front of some items, at least one of which it took;
* `Kept` : a value read from the front of some items, perhaps taking none.

Design notes: both carry a proof about the length of what is left unread, so that a reader
that calls others on what is left ends by the length of its items.
-/

namespace FieldLang

/-- A value read from the front of some items, at least one of which it took. -/
structure Taken (α : Type) {τ : Type} (ts : List τ) where
  value : α
  rest : List τ
  lt : rest.length < ts.length

/-- A value read from the front of some items, perhaps taking none. -/
structure Kept (α : Type) {τ : Type} (ts : List τ) where
  value : α
  rest : List τ
  le : rest.length ≤ ts.length

end FieldLang
