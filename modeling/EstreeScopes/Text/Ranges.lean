/-
This file gives classes of characters as ranges of codes.
-/

namespace EstreeScopes.Text

/-- Ranges of codes with both ends in them. -/
abbrev Ranges := List (Nat × Nat)

/-- Whether the code of a character lies in one of the ranges. -/
def Ranges.hold (ranges : Ranges) (char : Char) : Bool :=
  ranges.any fun (first, last) => first ≤ char.toNat && char.toNat ≤ last

end EstreeScopes.Text
