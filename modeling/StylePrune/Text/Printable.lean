import StylePrune.Text.Printable.Table

/-!
# Printable characters

A character is printable when quoted text shows it as it is.
-/

namespace StylePrune.Text

/-- The visible characters and the space of ASCII, and beyond ASCII every character outside
`unprintableRanges`. -/
def isPrintable (c : Char) : Bool :=
  if c.toNat < 0x80 then 0x20 ≤ c.toNat && c.toNat < 0x7F else !inRanges unprintableRanges c

end StylePrune.Text
