import StylePrune.Text.Lowercase

/-!
# Names of at-rules

An at-rule is known by the name in its keyword: without the `@`, in lower case, and without the mark
of a vendor. The *conditional* at-rules are those whose block holds statements.
-/

namespace StylePrune.AtRule

/-- What stands behind the first hyphen of a text, if there is one. -/
def behindHyphen (s : Text) : Text := (s.dropWhile (· != '-')).drop 1

/-- A name without the mark of a vendor, which is a word between two hyphens. -/
def withoutVendor : Text → Text
  | '-' :: rest => if (behindHyphen rest).isEmpty then '-' :: rest else behindHyphen rest
  | s => s

/-- The name in a keyword. -/
def name (keyword : Text) : Text := withoutVendor (Text.lower (keyword.dropWhile (· == '@')))

/-- The names of the at-rules whose block holds statements. -/
def conditionalNames : List Text :=
  ["media", "supports", "document", "container", "layer", "scope", "starting-style"].map
    String.toList

/-- Whether the block of the at-rule with this keyword holds statements. -/
def isConditional (keyword : Text) : Bool := conditionalNames.contains (name keyword)

end StylePrune.AtRule
