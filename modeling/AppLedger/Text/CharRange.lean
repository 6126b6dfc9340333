/-! Sets of characters, given by ranges of code points. -/

namespace AppLedger.Text

/-- The first and the last code point of each run of members. -/
abbrev CharRanges := List (Nat × Nat)

def CharRanges.contains (ranges : CharRanges) (c : Char) : Bool :=
  ranges.any fun range => range.1 ≤ c.toNat && c.toNat ≤ range.2

end AppLedger.Text
