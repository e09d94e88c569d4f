import StylePrune.Text.Quoted

/-!
# Why a selector is refused

The causes, and the text and column with which each is reported.
-/

namespace StylePrune

/-- What stops a scan over strings, comments and brackets. -/
inductive ScanFault where
  /-- A string is not closed. -/
  | openString
  /-- A comment is not closed. -/
  | openComment
  /-- A closing bracket is not the one that is awaited. -/
  | mismatched (bracket : Char)
  /-- The text ends inside brackets. -/
  | unbalanced
deriving DecidableEq, Repr

/-- Why a text is not a selector, or not a list of selectors. -/
inductive SelectorError where
  /-- No part begins with the character at this offset. -/
  | unexpected (c : Char) (offset : Nat) (text : Text)
  /-- The text has no part. -/
  | empty (text : Text)
  /-- Strings, comments or brackets do not close. -/
  | scan (fault : ScanFault) (text : Text)
deriving DecidableEq, Repr

namespace SelectorError

/-- The column that is reported, if one is. -/
def column? : SelectorError → Option Nat
  | .unexpected _ offset _ => some (offset + 1)
  | .empty _ | .scan _ _ => none

def message : SelectorError → Text
  | .unexpected c offset text =>
    "Unexpected ".toList ++ Text.quoted [c] ++ s!" at offset {offset} in selector: ".toList ++
      text.quoted
  | .empty text => "Empty selector: ".toList ++ text.quoted
  | .scan .openString text => "Unterminated string in selector: ".toList ++ text.quoted
  | .scan .openComment text => "Unterminated comment in selector: ".toList ++ text.quoted
  | .scan (.mismatched bracket) text =>
    "Mismatched ".toList ++ Text.quoted [bracket] ++ " in selector: ".toList ++ text.quoted
  | .scan .unbalanced text => "Unbalanced brackets in selector: ".toList ++ text.quoted

end SelectorError

end StylePrune
