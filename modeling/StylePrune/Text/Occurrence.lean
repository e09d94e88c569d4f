import StylePrune.Text.Basic

/-!
# Occurrence

A text occurs in another one when the second, at some place, continues with the first.
-/

namespace StylePrune.Text

/-- Whether `needle` occurs in the text as a run of neighbouring characters. -/
def occursIn (needle : Text) : Text → Bool
  | [] => needle.isEmpty
  | c :: rest => needle.isPrefixOf (c :: rest) || occursIn needle rest

/-- Occurrence is the infix relation of lists. -/
theorem occursIn_iff {needle s : Text} : occursIn needle s = true ↔ needle <:+: s := by
  induction s with
  | nil => simp [occursIn]
  | cons c rest ih =>
    rw [occursIn, Bool.or_eq_true, ih, List.isPrefixOf_iff_prefix, List.infix_cons_iff]

end StylePrune.Text
