import StylePrune.Text.Basic

/-!
# Comments and strings

A comment runs from `/*` to the first `*/` behind it. A string runs from a quote to the next such
quote that no backslash precedes; a backslash takes the character behind it along, whatever it is.

Both readers start behind the opening mark and give back the text up to the closing mark, that mark
included, and the text behind it (`closeComment_append`, `closeString_append`).
-/

namespace StylePrune

/-- Cuts the text behind an opening `/*` at the end of that comment. -/
def closeComment : Text → Option (Text × Text)
  | [] => none
  | '*' :: '/' :: rest => some (['*', '/'], rest)
  | c :: rest => (closeComment rest).map fun (body, rest) => (c :: body, rest)

/-- Cuts the text behind an opening quote at the end of that string. Unless `multiline` is set, a
line end that no backslash precedes leaves the string open. -/
def closeString (multiline : Bool) (quote : Char) : Text → Option (Text × Text)
  | [] => none
  | '\\' :: c :: rest =>
    (closeString multiline quote rest).map fun (body, rest) => ('\\' :: c :: body, rest)
  | c :: rest =>
    if c == quote then some ([c], rest)
    else if c == '\\' || (!multiline && Text.isLineEnd c) then none
    else (closeString multiline quote rest).map fun (body, rest) => (c :: body, rest)

/-- What a comment reader cuts, joined, is what it was given. -/
theorem closeComment_append {s body rest : Text} (h : closeComment s = some (body, rest)) :
    s = body ++ rest := by
  fun_induction closeComment s generalizing body rest with
  | case1 => simp at h
  | case2 r =>
    simp only [Option.some.injEq, Prod.mk.injEq] at h
    obtain ⟨rfl, rfl⟩ := h
    rfl
  | case3 c r _ ih =>
    obtain ⟨⟨b, t⟩, hb, heq⟩ := Option.map_eq_some_iff.1 h
    simp only [Prod.mk.injEq] at heq
    obtain ⟨rfl, rfl⟩ := heq
    rw [ih hb, List.cons_append]

/-- What a string reader cuts, joined, is what it was given. -/
theorem closeString_append {multiline : Bool} {quote : Char} {s body rest : Text}
    (h : closeString multiline quote s = some (body, rest)) : s = body ++ rest := by
  fun_induction closeString multiline quote s generalizing body rest with
  | case1 => simp at h
  | case2 c r ih =>
    obtain ⟨⟨b, t⟩, hb, heq⟩ := Option.map_eq_some_iff.1 h
    simp only [Prod.mk.injEq] at heq
    obtain ⟨rfl, rfl⟩ := heq
    rw [ih hb, List.cons_append, List.cons_append]
  | case3 c r _ hq =>
    simp only [Option.some.injEq, Prod.mk.injEq] at h
    obtain ⟨rfl, rfl⟩ := h
    rfl
  | case4 => simp at h
  | case5 c r _ _ _ ih =>
    obtain ⟨⟨b, t⟩, hb, heq⟩ := Option.map_eq_some_iff.1 h
    simp only [Prod.mk.injEq] at heq
    obtain ⟨rfl, rfl⟩ := heq
    rw [ih hb, List.cons_append]

theorem closeComment_length_le {s body rest : Text} (h : closeComment s = some (body, rest)) :
    rest.length ≤ s.length := by
  rw [closeComment_append h, List.length_append]
  omega

theorem closeString_length_le {multiline : Bool} {quote : Char} {s body rest : Text}
    (h : closeString multiline quote s = some (body, rest)) : rest.length ≤ s.length := by
  rw [closeString_append h, List.length_append]
  omega

end StylePrune
