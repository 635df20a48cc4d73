/-
# Tables of code points

A property of characters that no short rule describes is a list of ranges of code points, both
ends included.
-/

namespace PhpCatalog.Text

/-- Whether a code point lies in one of the ranges. -/
def inRanges (table : List (Nat × Nat)) (n : Nat) : Bool :=
  table.any fun range => range.1 ≤ n && n ≤ range.2

end PhpCatalog.Text
