/-!
# Ranges of characters
-/

namespace PathPolicy.Text

/-- Ranges of code points, each from its first to its last. -/
abbrev Ranges := List (Nat × Nat)

/-- Whether a character lies in one of the ranges. -/
def Ranges.has (ranges : Ranges) (c : Char) : Bool :=
  ranges.any fun (first, last) => first ≤ c.toNat && c.toNat ≤ last

end PathPolicy.Text
