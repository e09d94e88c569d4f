/-!
# Runs of code points

A character class of Unicode is a list of inclusive runs of code points; a character belongs to it
when one of the runs holds its code point.
-/

namespace StylePrune.Text

/-- The code points from `first` to `last`, both included. -/
abbrev CodeRange := Nat × Nat

/-- Whether one of the runs holds the character. -/
def inRanges (ranges : List CodeRange) (c : Char) : Bool :=
  ranges.any fun (first, last) => first ≤ c.toNat && c.toNat ≤ last

end StylePrune.Text
