import StylePrune.Text.Basic
import StylePrune.Text.Word
import StylePrune.Text.Quoted
import StylePrune.Text.Lowercase
import StylePrune.Text.Occurrence
import StylePrune.Text.Position
import StylePrune.Text.Order
import StylePrune.Text.ControlSequence
import StylePrune.Delimited
import StylePrune.Identifier
import StylePrune.Selector.Basic
import StylePrune.Selector.Bracket
import StylePrune.Selector.Combinator
import StylePrune.Selector.Part
import StylePrune.Selector.Parse
import StylePrune.HtmlElement
import StylePrune.Grammar.Token
import StylePrune.Grammar.Error
import StylePrune.Grammar.Statement
import StylePrune.Stylesheet.AtRule
import StylePrune.Stylesheet.Basic
import StylePrune.Stylesheet.Parse
import StylePrune.Prune
import StylePrune.Stylesheet.Note
import StylePrune.Compact.Script
import StylePrune.Compact.Style
import StylePrune.Numeric.Binary
import StylePrune.Numeric.Shortest
import StylePrune.Options
import StylePrune.Command
import StylePrune.Main
import StylePrune.Proofs.Tiling
import StylePrune.Proofs.Survival
import StylePrune.Proofs.Scan
import StylePrune.Proofs.Tokens
import StylePrune.Proofs.Blocks
import StylePrune.Proofs.Statements
import StylePrune.Proofs.Escapes
import StylePrune.Proofs.Pieces
import StylePrune.Proofs.Formed
import StylePrune.Proofs.Pruned
import StylePrune.Proofs.Reread
import StylePrune.Proofs.RoundTrip
import StylePrune.Proofs.Conservation
import StylePrune.Proofs.Lowercase
import StylePrune.Proofs.Verdict
import StylePrune.Proofs.ContentFiles
import StylePrune.Proofs.Beginnings
import StylePrune.Proofs.Openings
import StylePrune.Proofs.Idempotence
import StylePrune.Proofs.Terminals
import StylePrune.Proofs.Derivation
import StylePrune.Proofs.Phases
import StylePrune.Proofs.Lexing
import StylePrune.Proofs.Reading
import StylePrune.Proofs.Acceptance
import StylePrune.Proofs.Nodes
import StylePrune.Proofs.Outcome
import StylePrune.Proofs.Joining
import StylePrune.Proofs.Composition
import StylePrune.Proofs.Monotonicity
import StylePrune.Proofs.Unchanged
import StylePrune.Proofs.Retention
import StylePrune.Proofs.SelectorLists
import StylePrune.Proofs.Addresses
import StylePrune.Proofs.Decoding
import StylePrune.Proofs.Commas
import StylePrune.Proofs.Verbatim
import StylePrune.Proofs.ByteOrderMark
import StylePrune.Proofs.Writing
import StylePrune.Proofs.AllOrNothing
import StylePrune.Proofs.NormalForm
import StylePrune.Proofs.AttributeComments
import StylePrune.Proofs.Truncation
import StylePrune.Proofs.Faults
import StylePrune.Proofs.Groups
import StylePrune.Proofs.Preference
import StylePrune.Proofs.AtomRuns
import StylePrune.Proofs.AttributeNames
