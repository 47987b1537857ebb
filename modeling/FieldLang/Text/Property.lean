/-
Properties of code points, given by where they change.

A property that holds on a few hundred ranges of code points is kept as the ascending list
of the code points at which it turns on and off, beginning with the first that has it.

* `holdsAt` : whether the property holds of a code point.
-/

namespace FieldLang.Text

/-- A property holds of `n` when it has changed an odd number of times up to `n`. -/
def holdsAt (changes : List Nat) (n : Nat) : Bool :=
  (changes.takeWhile (· ≤ n)).length % 2 == 1

end FieldLang.Text
