import StylePrune.Text.Basic

/-!
# Positions

A position in a text is told by its line and its column, both counted from one. Lines end with a
line feed and with nothing else.
-/

namespace StylePrune

/-- A line and a column, both counted from one. -/
structure Position where
  line : Nat
  column : Nat
deriving DecidableEq, Repr

/-- The position right after a text that starts at line one, column one. -/
def Position.after (before : Text) : Position where
  line := before.count '\n' + 1
  column := (before.reverse.takeWhile (· != '\n')).length + 1

end StylePrune
