/-!
# `Apidoc.Text.Slice`: parts of a list by offsets

An offset below zero counts from the end, and an offset outside the list stands for the nearer end.
-/

set_option autoImplicit false

namespace Apidoc.Text

/-- The place in a list of length `n` that an offset stands for. -/
def place (n : Nat) (i : Int) : Nat := if 0 ≤ i then min i.toNat n else n - (-i).toNat

/-- The items from offset `first` up to offset `last`, which is left out. -/
def slice {α : Type} (first last : Int) (xs : List α) : List α :=
  (xs.take (place xs.length last)).drop (place xs.length first)

end Apidoc.Text
