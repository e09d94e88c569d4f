import StylePrune.Delimited

/-!
# Combinators

Between the parts of a selector stand blanks and comments, with or without a symbol among them. The
symbols are `>`, `+`, `~`, `>>>`, and a word between slashes such as `/deep/`.
-/

namespace StylePrune

/-- Takes the blanks and the complete comments at the start of a text. -/
def takeSpacing (s : Text) : Text × Text :=
  match s with
  | [] => ([], [])
  | '/' :: '*' :: rest =>
    match _h : closeComment rest with
    | some (body, rest') =>
      let (spacing, behind) := takeSpacing rest'
      ('/' :: '*' :: body ++ spacing, behind)
    | none => ([], s)
  | c :: rest =>
    if Text.isBlank c then
      let (spacing, behind) := takeSpacing rest
      (c :: spacing, behind)
    else ([], s)
termination_by s.length
decreasing_by
  · have := closeComment_length_le _h
    simp only [List.length_cons]
    omega
  · simp

/-- Spacing, joined with the text behind it, is the text it was taken from. -/
theorem takeSpacing_append (s : Text) : (takeSpacing s).1 ++ (takeSpacing s).2 = s := by
  fun_induction takeSpacing s with
  | case1 => rfl
  | case2 rest body rest' h spacing behind heq ih =>
    rw [heq] at ih
    simp only at ih
    rw [List.append_assoc, ih, closeComment_append h]
    rfl
  | case3 => rfl
  | case4 c rest _ _ spacing behind heq ih =>
    rw [heq] at ih
    simp only at ih
    rw [List.cons_append, ih]
  | case5 => rfl

/-- A letter of ASCII or a hyphen, of which words between slashes are made. -/
def isSlashedChar (c : Char) : Bool := c.isAlpha || c == '-'

/-- Takes the symbol at the start of a text; the symbol may be empty. -/
def takeSymbol : Text → Text × Text
  | '>' :: '>' :: '>' :: rest => (['>', '>', '>'], rest)
  | '/' :: rest =>
    match rest.takeWhile isSlashedChar, rest.dropWhile isSlashedChar with
    | c :: word, '/' :: behind => ('/' :: c :: word ++ ['/'], behind)
    | _, _ => ([], '/' :: rest)
  | c :: rest => if c == '>' || c == '+' || c == '~' then ([c], rest) else ([], c :: rest)
  | [] => ([], [])

theorem takeSymbol_append (s : Text) : (takeSymbol s).1 ++ (takeSymbol s).2 = s := by
  unfold takeSymbol
  split
  · rfl
  · rename_i rest
    split
    · rename_i c word behind hword hbehind
      have h := List.takeWhile_append_dropWhile (p := isSlashedChar) (l := rest)
      rw [hword, hbehind] at h
      simp [← h]
    · rfl
  · split <;> rfl
  · rfl

/-- A symbol with the spacing around it. -/
structure Combinator where
  before : Text
  symbol : Text
  after : Text
deriving DecidableEq, Repr

namespace Combinator

def raw (c : Combinator) : Text := c.before ++ c.symbol ++ c.after

/-- The symbol, with a space standing for the descendant combinator that has none. -/
def value (c : Combinator) : Text := if c.symbol.isEmpty then [' '] else c.symbol

/-- Takes the combinator at the start of a text; it may be empty. -/
def read (s : Text) : Combinator × Text :=
  let (before, s) := takeSpacing s
  let (symbol, s) := takeSymbol s
  let (after, s) := takeSpacing s
  (⟨before, symbol, after⟩, s)

theorem read_append (s : Text) : (read s).1.raw ++ (read s).2 = s := by
  simp only [read, raw, List.append_assoc, takeSpacing_append, takeSymbol_append]

theorem read_length_lt {s : Text} (h : (read s).1.raw ≠ []) : (read s).2.length < s.length := by
  have hlen := congrArg List.length (read_append s)
  have hpos := List.length_pos_iff.2 h
  rw [List.length_append] at hlen
  omega

end Combinator

end StylePrune
