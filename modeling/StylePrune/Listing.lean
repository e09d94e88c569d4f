import StylePrune.Stylesheet.Parse

/-!
# Listings

A listing shows the nodes of a stylesheet, a line or two each: rules with their selectors and the
parts of these, at-rules with their heads, and the beginnings of comments. What stands inside a
group is moved in.
-/

namespace StylePrune.Listing

def commentWidth : Nat := 50

/-- The parts of a selector with their kinds, two spaces between them. -/
def parts (s : Selector) : Text :=
  [' ', ' '].intercalate (s.parts.map fun p => p.kind.label.toList ++ '=' :: p.value.quoted)

def atRule (keyword prelude : Text) (kind : String) : Text :=
  keyword ++ ' ' :: prelude.trim ++ s!" ({kind})".toList

/-- The line of a comment, cut if it is long. -/
def comment (t : Text) : Text :=
  "comment: ".toList ++
    if t.length ≤ commentWidth then t else t.take commentWidth ++ ['.', '.', '.']

/-- The lines of the nodes of a stylesheet, moved in by `indent`. -/
def nodes (indent : Text) : Stylesheet → List Text
  | .done _ => []
  | .rule _ head _ next =>
    (indent ++ s!"rule: {head.length} selector(s)".toList) ::
      head.flatMap (fun s => [indent ++ [' ', ' '] ++ s.raw.trim,
        indent ++ [' ', ' ', ' ', ' '] ++ parts s]) ++ nodes indent next
  | .atRule _ keyword prelude _ next =>
    (indent ++ atRule keyword prelude "non-conditional") :: nodes indent next
  | .group _ keyword prelude _ body next =>
    (indent ++ atRule keyword prelude "conditional") ::
      nodes (indent ++ [' ', ' ']) body ++ nodes indent next
  | .comment _ t next => (indent ++ comment t) :: nodes indent next
  | .unknown _ next => nodes indent next

/-- The lines of a listing. -/
def lines (name : Text) (s : Stylesheet) : List Text :=
  ["Stylesheet: ".toList ++ name, s!"Nodes:     {s.size}".toList,
    s!"Selectors: {s.selectors.length}".toList, []] ++ nodes [] s

end StylePrune.Listing
