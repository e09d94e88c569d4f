import StylePrune.Pattern

/-!
# Comments and strings as patterns

The patterns that compact stylesheets and compact scripts have in common.
-/

namespace StylePrune.Compact

open Pattern

/-- A comment between `/*` and `*/`. -/
def comment : Pattern :=
  seqs [literal "/*", many (noneOf "*"), some1 (oneOf "*"),
    star (seqs [one (noneOf "/*"), many (noneOf "*"), some1 (oneOf "*")]), char '/']

/-- A string between the given quotes, of characters outside the class `stops` and of backslashes
with what they take along. -/
def stringOf (quote : Char) (stops : String) (escaped : Pattern) : Pattern :=
  let plain : Char → Bool := fun c => c != quote && c != '\\' && noneOf stops c
  seqs [char quote, many plain, star (seqs [char '\\', escaped, many plain]), char quote]

end StylePrune.Compact
