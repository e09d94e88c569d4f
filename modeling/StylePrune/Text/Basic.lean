/-!
# Text

Text is a list of characters, so that every scanner of the library is a recursion on it. Two sets of
space characters are in use: the *blanks* that a stylesheet allows between its tokens, and the wider
set of *spaces* that trimming removes.
-/

namespace StylePrune

/-- Text, character by character. -/
abbrev Text := List Char

namespace Text

/-- The characters a stylesheet ignores between tokens: space, tab, line feed, carriage return and
form feed. -/
def isBlank (c : Char) : Bool :=
  c == ' ' || c == '\t' || c == '\n' || c == '\r' || c == '\x0c'

/-- The characters that end a line inside a stylesheet. -/
def isLineEnd (c : Char) : Bool :=
  c == '\n' || c == '\r' || c == '\x0c'

/-- Trimming removes the blanks of ASCII, the four separators U+001C to U+001F, and every space,
line or paragraph separator of Unicode. -/
def isSpace (c : Char) : Bool :=
  let n := c.toNat
  (0x09 ≤ n && n ≤ 0x0D) || (0x1C ≤ n && n ≤ 0x20) || n == 0x85 || n == 0xA0 || n == 0x1680 ||
    (0x2000 ≤ n && n ≤ 0x200A) || n == 0x2028 || n == 0x2029 || n == 0x202F || n == 0x205F ||
    n == 0x3000

/-- The text without the spaces at its start. -/
def trimStart (s : Text) : Text := s.dropWhile isSpace

/-- The text without the spaces at its two ends. -/
def trim (s : Text) : Text := (s.trimStart.reverse.dropWhile isSpace).reverse

/-- The text up to its first line feed. -/
def firstLine (s : Text) : Text := s.takeWhile (· != '\n')

/-- The number of bytes that a text takes in UTF-8. -/
def byteCount (s : Text) : Nat := s.foldr (fun c n => c.utf8Size + n) 0

/-- A blank is also removed by trimming. -/
theorem isSpace_of_isBlank {c : Char} (h : isBlank c = true) : isSpace c = true := by
  simp only [isBlank, Bool.or_eq_true, beq_iff_eq] at h
  rcases h with (((rfl | rfl) | rfl) | rfl) | rfl <;> decide

/-- Trimming the start changes nothing exactly when the text does not begin with a space. -/
theorem trimStart_eq_self_iff {s : Text} : s.trimStart = s ↔ ∀ c ∈ s.head?, isSpace c = false := by
  cases s with
  | nil => simp [trimStart]
  | cons c r =>
    by_cases h : isSpace c = true
    · have hle := (List.dropWhile_sublist isSpace (l := r)).length_le
      constructor
      · intro hs
        have := congrArg List.length hs
        simp only [trimStart, List.dropWhile_cons, h, if_true, List.length_cons] at this
        omega
      · simp [h]
    · simp [trimStart, h]

end Text

end StylePrune
