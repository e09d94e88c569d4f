import StylePrune.Text.Basic

/-!
# Sets of texts

A set of texts is a list that answers membership. It is shown in the order of code points, each text
once; collecting keeps the first of several equal texts in its place.
-/

namespace StylePrune.Text

/-- The texts of a list in the order they are first seen, each once. -/
def firstSeen : List Text → List Text
  | [] => []
  | s :: rest => s :: (firstSeen rest).filter (· != s)

/-- The texts of a list in the order of their code points, each once. -/
def sorted (texts : List Text) : List Text :=
  (firstSeen texts).mergeSort fun a b => !b.lex a fun c d => c.toNat < d.toNat

/-- Collecting keeps exactly the members. -/
@[simp] theorem mem_firstSeen {s : Text} {texts : List Text} :
    s ∈ firstSeen texts ↔ s ∈ texts := by
  induction texts with
  | nil => simp [firstSeen]
  | cons t rest ih =>
    by_cases h : s = t <;> simp [firstSeen, h, ih]

/-- Collecting keeps each text once. -/
theorem nodup_firstSeen (texts : List Text) : (firstSeen texts).Nodup := by
  induction texts with
  | nil => simp [firstSeen]
  | cons t rest ih =>
    rw [firstSeen, List.nodup_cons]
    exact ⟨by simp, ih.filter _⟩

/-- Showing a set in order keeps exactly its members. -/
@[simp] theorem mem_sorted {s : Text} {texts : List Text} : s ∈ sorted texts ↔ s ∈ texts := by
  simp [sorted]

end StylePrune.Text
