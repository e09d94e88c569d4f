import StylePrune.Stylesheet.Basic
import StylePrune.Text.Order

/-!
# The names a stylesheet selects on

The values of the parts of one kind, from front to back, each at the place where it is first seen.
Classes and ids written with escapes can be told from the plain ones.
-/

namespace StylePrune.Stylesheet

def parts (s : Stylesheet) : List Part := s.selectors.flatMap Selector.parts

/-- The values of the parts with a property, each once. -/
def valuesWhere (p : Part → Bool) (s : Stylesheet) : List Text :=
  Text.firstSeen ((s.parts.filter p).map Part.value)

/-- The values of the parts of a kind, each once. -/
def values (kind : PartKind) (s : Stylesheet) : List Text := s.valuesWhere fun p => p.kind == kind

/-- The values of the parts of a kind that are written with escapes, or of those that are not. -/
def valuesSpecial (kind : PartKind) (special : Bool) (s : Stylesheet) : List Text :=
  s.valuesWhere fun p => p.kind == kind && p.isSpecial == special

/-- A value of a kind is the value of a part of that kind. -/
theorem mem_values {kind : PartKind} {s : Stylesheet} {v : Text} :
    v ∈ s.values kind ↔ ∃ p ∈ s.parts, p.kind = kind ∧ p.value = v := by
  simp [values, valuesWhere, and_assoc]

/-- A value written with escapes, or one written without, is that of a part written so. -/
theorem mem_valuesSpecial {kind : PartKind} {special : Bool} {s : Stylesheet} {v : Text} :
    v ∈ s.valuesSpecial kind special ↔
      ∃ p ∈ s.parts, p.kind = kind ∧ p.isSpecial = special ∧ p.value = v := by
  simp [valuesSpecial, valuesWhere, and_assoc]

end StylePrune.Stylesheet
