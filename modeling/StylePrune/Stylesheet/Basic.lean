import StylePrune.Selector.Basic
import StylePrune.Stylesheet.AtRule
import StylePrune.Text.Quoted

/-!
# Stylesheets

A sheet is read front to back: it is either the text behind its last node, or a node followed by the
rest of the sheet. Every node keeps the text that led to it, so a sheet holds the whole text it was
read from. The head of a rule is text while the structure of a stylesheet is read, and a list of
selectors afterwards.

A *group* is a conditional at-rule whose block was read as a sheet of its own. `Sheet.text` writes a
sheet as it stands; `Stylesheet.text` writes it with the spaces before the first selector of a rule
removed.
-/

namespace StylePrune

/-- A sequence of nodes and the text behind them, with rule heads of type `σ`. -/
inductive Sheet (σ : Type) where
  /-- The end, with the text behind the last node. -/
  | done (trailing : Text)
  /-- A rule; its block includes the braces. -/
  | rule (leading : Text) (head : σ) (block : Text) (next : Sheet σ)
  /-- An at-rule with a block that is not looked into, or with none. -/
  | atRule (leading keyword prelude : Text) (block : Option Text) (next : Sheet σ)
  /-- A conditional at-rule. A sheet built by hand may give it a block besides; the body hides it.
  -/
  | group (leading keyword prelude : Text) (hidden : Option Text) (body next : Sheet σ)
  | comment (leading text : Text) (next : Sheet σ)
  /-- Something that is no node; only a sheet built by hand holds one. -/
  | unknown (value : Text) (next : Sheet σ)
deriving DecidableEq, Repr

/-- The structure of a stylesheet, its rule heads not yet looked into. -/
abbrev Outline := Sheet Text

/-- A stylesheet whose rules have selectors. -/
abbrev Stylesheet := Sheet (List Selector)

namespace Sheet

variable {σ : Type}

/-- The number of nodes, those inside groups not counted. -/
def size : Sheet σ → Nat
  | .done _ => 0
  | .rule _ _ _ next => next.size + 1
  | .atRule _ _ _ _ next => next.size + 1
  | .group _ _ _ _ _ next => next.size + 1
  | .comment _ _ next => next.size + 1
  | .unknown _ next => next.size + 1

/-- The heads of all rules, groups included, from front to back. -/
def heads : Sheet σ → List σ
  | .done _ => []
  | .rule _ head _ next => head :: next.heads
  | .atRule _ _ _ _ next => next.heads
  | .group _ _ _ _ body next => body.heads ++ next.heads
  | .comment _ _ next => next.heads
  | .unknown _ next => next.heads

/-- The text of a sheet as it stands, given the text of a rule's head. -/
def text (headText : σ → Text) : Sheet σ → Text
  | .done trailing => trailing
  | .rule leading head block next => leading ++ headText head ++ block ++ next.text headText
  | .atRule leading keyword prelude block next =>
    leading ++ keyword ++ prelude ++ block.getD [';'] ++ next.text headText
  | .group leading keyword prelude _ body next =>
    leading ++ keyword ++ prelude ++ '{' :: body.text headText ++ '}' :: next.text headText
  | .comment leading t next => leading ++ t ++ next.text headText
  | .unknown _ next => next.text headText

/-- The first thing in the sheet, groups included, that is no node. -/
def firstUnknown? : Sheet σ → Option Text
  | .done _ => none
  | .rule _ _ _ next => next.firstUnknown?
  | .atRule _ _ _ _ next => next.firstUnknown?
  | .group _ _ _ _ body next =>
    match body.firstUnknown? with
    | some value => some value
    | none => next.firstUnknown?
  | .comment _ _ next => next.firstUnknown?
  | .unknown value _ => some value

/-- The first thing inside a group of the sheet that is no node. -/
def firstNestedUnknown? : Sheet σ → Option Text
  | .done _ => none
  | .rule _ _ _ next => next.firstNestedUnknown?
  | .atRule _ _ _ _ next => next.firstNestedUnknown?
  | .group _ _ _ _ body next =>
    match body.firstUnknown? with
    | some value => some value
    | none => next.firstNestedUnknown?
  | .comment _ _ next => next.firstNestedUnknown?
  | .unknown _ next => next.firstNestedUnknown?

/-- Whether the sheet has a node other than a comment, groups not looked into. -/
def hasContent : Sheet σ → Bool
  | .done _ => false
  | .comment _ _ next => next.hasContent
  | .rule .. | .atRule .. | .group .. | .unknown .. => true

/-- Replaces the head of every rule; the first head from the front that cannot be replaced decides.
-/
def traverse {ε τ : Type} (f : σ → Except ε τ) : Sheet σ → Except ε (Sheet τ)
  | .done trailing => .ok (.done trailing)
  | .rule leading head block next => do
    let head ← f head
    let next ← next.traverse f
    pure (.rule leading head block next)
  | .atRule leading keyword prelude block next => do
    let next ← next.traverse f
    pure (.atRule leading keyword prelude block next)
  | .group leading keyword prelude hidden body next => do
    let body ← body.traverse f
    let next ← next.traverse f
    pure (.group leading keyword prelude hidden body next)
  | .comment leading t next => do
    let next ← next.traverse f
    pure (.comment leading t next)
  | .unknown value next => do
    let next ← next.traverse f
    pure (.unknown value next)

end Sheet

namespace Stylesheet

/-- All selectors of a stylesheet, groups included, from front to back. -/
def selectors (s : Stylesheet) : List Selector := s.heads.flatten

/-- The head of a rule as it is written: the selectors joined by commas, without the spaces before
the first. -/
def prelude (head : List Selector) : Text := (Selector.joined head).trimStart

/-- The text of a stylesheet, a node that is none left out. -/
def text (s : Stylesheet) : Text := Sheet.text prelude s

/-- The text of a stylesheet, or the first thing in it that is no node. -/
def write (s : Stylesheet) : Except Text Text :=
  match s.firstUnknown? with
  | some value => .error value
  | none => .ok (text s)

/-- What is reported about a thing in a stylesheet that is no node. -/
def unknownMessage (value : Text) : Text := "Unknown stylesheet node: ".toList ++ value.quoted

end Stylesheet

end StylePrune
