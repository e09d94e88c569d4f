import StylePrune.Text.Basic

/-!
# Prepending to a result

A reader gives the text it took together with what it found behind it. When a reader has taken some
text before another one goes on, `prepend` puts that text in front of the other one's.
-/

namespace StylePrune.Text

/-- Puts a text in front of the one that a reader took. -/
def prepend {ε α : Type} (s : Text) : Except ε (Text × α) → Except ε (Text × α)
  | .error e => .error e
  | .ok (t, a) => .ok (s ++ t, a)

/-- A result with a text put in front comes from the result without it. -/
theorem prepend_eq_ok_iff {ε α : Type} {s t : Text} {a : α} {x : Except ε (Text × α)} :
    prepend s x = .ok (t, a) ↔ ∃ u, x = .ok (u, a) ∧ t = s ++ u := by
  cases x with
  | error e => simp [prepend]
  | ok p =>
    obtain ⟨u, b⟩ := p
    simp only [prepend, Except.ok.injEq, Prod.mk.injEq]
    constructor
    · rintro ⟨rfl, rfl⟩
      exact ⟨u, ⟨rfl, rfl⟩, rfl⟩
    · rintro ⟨v, ⟨rfl, rfl⟩, rfl⟩
      exact ⟨rfl, rfl⟩

/-- Prepending keeps the failures. -/
theorem prepend_eq_error_iff {ε α : Type} {s : Text} {e : ε} {x : Except ε (Text × α)} :
    prepend s x = .error e ↔ x = .error e := by
  cases x <;> simp [prepend]

theorem prepend_nil {ε α : Type} (x : Except ε (Text × α)) : prepend [] x = x := by
  cases x <;> rfl

theorem prepend_prepend {ε α : Type} (a b : Text) (x : Except ε (Text × α)) :
    prepend a (prepend b x) = prepend (a ++ b) x := by
  cases x <;> simp [prepend]

end StylePrune.Text
