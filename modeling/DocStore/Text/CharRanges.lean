/-!
# Sets of characters as ranges

A character property is kept as the inclusive ranges of code points that have it.
-/

namespace DocStore.Text

abbrev CharRanges := List (Nat × Nat)

def CharRanges.contains (ranges : CharRanges) (c : Char) : Bool :=
  ranges.any fun range => range.1 ≤ c.toNat && c.toNat ≤ range.2

end DocStore.Text
