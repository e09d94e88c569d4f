import StylePrune.HtmlElement
import StylePrune.Identifier
import StylePrune.Stylesheet.Values
import StylePrune.Text.Occurrence

/-!
# Usage

Content uses a name when the name, in lower case, occurs anywhere in the content in lower case. No
word boundaries are asked for: content holds names in attributes, in strings and in templates, and a
name found too often only keeps a rule too many.

Escapes in classes, ids and attribute names are decoded before the search, those in tags are not.
Classes and ids without escapes are searched for as they stand.
-/

namespace StylePrune

/-- Content to search, in lower case. -/
structure Corpus where
  text : Text
deriving DecidableEq, Repr

namespace Corpus

def ofContent (content : Text) : Corpus := ⟨content.lower⟩

/-- Whether a name occurs in the corpus; the empty name does not. -/
def mentions (c : Corpus) (name : Text) : Bool :=
  !name.isEmpty && Text.occursIn name.lower c.text

/-- Whether a name occurs in the corpus once its escapes are decoded. -/
def mentionsDecoded (c : Corpus) (name : Text) : Bool := c.mentions (Identifier.decode name)

/-- The names that occur in the corpus, each once, in the order given. -/
def mentioned (c : Corpus) (names : List Text) : List Text :=
  Text.firstSeen (names.filter c.mentions)

/-- The names that occur in the corpus with their escapes decoded, each once, in the order given. -/
def mentionedDecoded (c : Corpus) (names : List Text) : List Text :=
  Text.firstSeen (names.filter c.mentionsDecoded)

end Corpus

/-- The names in use, as the stylesheet writes them. Each list is a set: only membership counts. -/
structure Usage where
  classes : List Text
  ids : List Text
  tags : List Text
  attributes : List Text
deriving DecidableEq, Repr

namespace Usage

/-- The set that a part of a kind is looked up in; the kinds that are not checked have none. -/
def namesOf? (u : Usage) : PartKind → Option (List Text)
  | .className => some u.classes
  | .idName => some u.ids
  | .tag => some u.tags
  | .attribute => some u.attributes
  | .combinator | .pseudoClass | .pseudoElement | .universal => none

/-- Whether a part may match: its value is in use, or the part is not checked. -/
def allows (u : Usage) (p : Part) : Bool :=
  match u.namesOf? p.kind with
  | some names => names.contains p.value
  | none => true

/-- Whether a selector may match: every part of it may. -/
def keeps (u : Usage) (s : Selector) : Bool := s.parts.all u.allows

/-- The values of the classes or of the ids of a stylesheet that the corpus mentions, those without
escapes first. -/
def mentionedOf (corpus : Corpus) (kind : PartKind) (s : Stylesheet) : List Text :=
  corpus.mentioned (s.valuesSpecial kind false) ++
    corpus.mentionedDecoded (s.valuesSpecial kind true)

/-- The names of a stylesheet that a content uses. The elements of HTML are looked for in addition
to the tags of the stylesheet. -/
def ofContent (s : Stylesheet) (content : Text) : Usage :=
  let corpus := Corpus.ofContent content
  { classes := mentionedOf corpus .className s
    ids := mentionedOf corpus .idName s
    tags := corpus.mentioned (htmlElements ++ s.values .tag)
    attributes := corpus.mentionedDecoded (s.values .attribute) }

end Usage

end StylePrune
