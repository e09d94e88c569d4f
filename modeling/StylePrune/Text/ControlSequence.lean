import StylePrune.Text.Basic

/-!
# Control sequences

Text that is printed loses the control sequences by which terminals set colours and move the cursor:
an escape character with an opening bracket, parameters of digits, semicolons and question marks,
and the ASCII letter that ends them. Where that letter is missing there is no sequence, and
everything stays. Text without escape characters is printed as it is
(`withoutControlSequences_eq_self`).
-/

namespace StylePrune.Text

def escapeChar : Char := '\x1b'

/-- A character of the parameters of a control sequence. -/
def isParameter (c : Char) : Bool := c.isDigit || c == ';' || c == '?'

/-- What stands behind the parameters and the letter of a control sequence, if a text begins with
them. -/
def behindParameters? : Text → Option Text
  | [] => none
  | c :: rest =>
    if isParameter c then behindParameters? rest else if c.isAlpha then some rest else none

theorem length_lt_of_behindParameters? {s rest : Text} (h : behindParameters? s = some rest) :
    rest.length < s.length := by
  induction s with
  | nil => simp [behindParameters?] at h
  | cons c s ih =>
    simp only [behindParameters?] at h
    split at h
    · have := ih h
      simp only [List.length_cons]
      omega
    · split at h
      · simp_all
      · simp at h

/-- What stands behind a control sequence, if a text begins with one. -/
def behindControlSequence? : Text → Option Text
  | c :: '[' :: rest => if c = escapeChar then behindParameters? rest else none
  | _ => none

theorem length_lt_of_behindControlSequence? {s rest : Text}
    (h : behindControlSequence? s = some rest) : rest.length < s.length := by
  unfold behindControlSequence? at h
  split at h
  · split at h
    · have := length_lt_of_behindParameters? h
      simp only [List.length_cons]
      omega
    · simp at h
  · simp at h

/-- The text without its control sequences. -/
def withoutControlSequences (s : Text) : Text :=
  match _h : behindControlSequence? s with
  | some rest => withoutControlSequences rest
  | none =>
    match s with
    | [] => []
    | c :: rest => c :: withoutControlSequences rest
termination_by s.length
decreasing_by
  · exact length_lt_of_behindControlSequence? ‹_›
  · simp

/-- A text without escape characters has no control sequences. -/
theorem withoutControlSequences_eq_self {s : Text} (h : escapeChar ∉ s) :
    s.withoutControlSequences = s := by
  induction s with
  | nil => simp [withoutControlSequences, behindControlSequence?]
  | cons c rest ih =>
    have hc : behindControlSequence? (c :: rest) = none := by
      unfold behindControlSequence?
      split
      · simp_all [eq_comm]
      · rfl
    rw [withoutControlSequences]
    split
    · simp_all
    · simp_all

end StylePrune.Text
