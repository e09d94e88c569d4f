import StylePrune.Text.Word.Table

/-!
# Word characters

A word character is a letter or a number of any script, or the underscore.
-/

namespace StylePrune.Text

/-- A letter or number of any script, or the underscore. -/
def isWordChar (c : Char) : Bool :=
  c.isAlphanum || c == '_' || (0x80 ≤ c.toNat && inRanges wordRanges c)

/-- The letters and digits of ASCII are word characters. -/
theorem isWordChar_of_isAlphanum {c : Char} (h : c.isAlphanum = true) : isWordChar c = true := by
  simp [isWordChar, h]

end StylePrune.Text
