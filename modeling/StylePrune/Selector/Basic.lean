import StylePrune.Text.Basic

/-!
# Selectors

A selector is a sequence of parts, with the blanks and comments that stand before the first and
behind the last of them. Every part keeps the text it was read from, so the text of the whole
selector is the concatenation of its pieces.
-/

namespace StylePrune

/-- What a part of a selector selects on. -/
inductive PartKind where
  | combinator
  | tag
  | className
  | idName
  | attribute
  | pseudoClass
  | pseudoElement
  | universal
deriving DecidableEq, Repr, Inhabited

def PartKind.label : PartKind → String
  | .combinator => "combinator"
  | .tag => "tag"
  | .className => "class"
  | .idName => "id"
  | .attribute => "attribute"
  | .pseudoClass => "pseudo-class"
  | .pseudoElement => "pseudo-element"
  | .universal => "universal"

/-- The kind that a listing names, if it names one. -/
def PartKind.ofLabel? (label : String) : Option PartKind :=
  [.combinator, .tag, .className, .idName, .attribute, .pseudoClass, .pseudoElement,
    .universal].find? fun kind => kind.label == label

/-- One atomic part of a selector. -/
structure Part where
  kind : PartKind
  /-- The identifier of a tag, class, id or pseudo part with its escapes, the name of an attribute,
  or the symbol of a combinator. -/
  value : Text
  /-- The text the part was read from. -/
  raw : Text
deriving DecidableEq, Repr

namespace Part

/-- Whether content can tell that the part matches nothing. -/
def isChecked (p : Part) : Bool :=
  p.kind = .tag || p.kind = .className || p.kind = .idName || p.kind = .attribute

/-- Whether the part is a class or an id written with escapes. -/
def isSpecial (p : Part) : Bool :=
  (p.kind = .className || p.kind = .idName) && p.value.contains '\\'

/-- The part as reports show it: combinators spaced out, attributes without their condition. -/
def shown (p : Part) : Text :=
  match p.kind with
  | .combinator => if p.value = [' '] then [' '] else ' ' :: p.value ++ [' ']
  | .className => '.' :: p.value
  | .idName => '#' :: p.value
  | .attribute => '[' :: p.value ++ [']']
  | .tag => p.value
  | .pseudoClass | .pseudoElement | .universal => p.raw

end Part

/-- A selector without top-level commas. -/
structure Selector where
  parts : List Part
  /-- The blanks and comments before the first part. -/
  before : Text
  /-- The blanks and comments behind the last part. -/
  after : Text
deriving DecidableEq, Repr

namespace Selector

def raw (s : Selector) : Text := s.before ++ s.parts.flatMap Part.raw ++ s.after

def shown (s : Selector) : Text := s.parts.flatMap Part.shown

/-- The texts of several selectors, joined by commas. -/
def joined (selectors : List Selector) : Text := [','].intercalate (selectors.map raw)

end Selector

end StylePrune
