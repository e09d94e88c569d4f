import StylePrune.Grammar.Statement
import StylePrune.Selector.Parse
import StylePrune.Stylesheet.Basic

/-!
# Reading stylesheets

A stylesheet is read in two steps. `Outline.parse` reads the structure: the statements of the text,
and, in place of the block of a conditional at-rule, the statements in it, if the grammar accepts
them; otherwise the block stays as it is. `Stylesheet.parse` then reads the selectors of every rule.
So a text that the grammar refuses is refused whatever its selectors are, and among selectors the
first refused one from the front decides.
-/

namespace StylePrune

/-- Why a text is not a stylesheet. -/
inductive ParseError where
  | grammar (e : GrammarError)
  | selector (e : SelectorError)
deriving DecidableEq, Repr

def ParseError.message : ParseError → Text
  | .grammar e => e.message
  | .selector e => e.message

namespace Statement

def totalLength (sts : List Statement) : Nat := (sts.flatMap text).length

theorem totalLength_le_cons (st : Statement) (sts : List Statement) :
    totalLength sts ≤ totalLength (st :: sts) := by
  rw [totalLength, totalLength, List.flatMap_cons, List.length_append]
  omega

/-- The statements inside the block of the first statement are shorter than that statement. -/
theorem totalLength_body_lt {leading keyword prelude body trailing : Text}
    {inner sts : List Statement} (h : readAll body = .ok (inner, trailing)) :
    totalLength inner < totalLength (.atRule leading keyword prelude (some body) :: sts) := by
  have hlen := congrArg List.length (readAll_append h)
  simp only [totalLength, List.flatMap_cons, List.length_append, text, braced, List.length_cons]
    at hlen ⊢
  omega

end Statement

namespace Outline

/-- The outline of a sequence of statements and the text behind them. -/
def ofStatements (sts : List Statement) (trailing : Text) : Outline :=
  match sts with
  | [] => .done trailing
  | .comment leading t :: sts => .comment leading t (ofStatements sts trailing)
  | .rule leading head body :: sts =>
    .rule leading head (Statement.braced body) (ofStatements sts trailing)
  | .atRule leading keyword prelude none :: sts =>
    .atRule leading keyword prelude none (ofStatements sts trailing)
  | .atRule leading keyword prelude (some body) :: sts =>
    if AtRule.isConditional keyword then
      match _h : Statement.readAll body with
      | .ok (inner, innerTrailing) =>
        .group leading keyword prelude none (ofStatements inner innerTrailing)
          (ofStatements sts trailing)
      | .error _ =>
        .atRule leading keyword prelude (some (Statement.braced body)) (ofStatements sts trailing)
    else
      .atRule leading keyword prelude (some (Statement.braced body)) (ofStatements sts trailing)
termination_by (Statement.totalLength sts, sts.length)
decreasing_by
  all_goals
    first
      | exact Prod.Lex.right' _ (Statement.totalLength_le_cons _ _) (Nat.lt_succ_self _)
      | exact Prod.Lex.left _ _ (Statement.totalLength_body_lt _h)

/-- Reads the structure of a text. -/
def parse (text : Text) : Except GrammarError Outline :=
  match Statement.readAll text with
  | .error e => .error e
  | .ok (sts, trailing) => .ok (ofStatements sts trailing)

end Outline

namespace Stylesheet

/-- Reads the selectors of all rules of an outline. -/
def ofOutline (o : Outline) : Except SelectorError Stylesheet := o.traverse Selector.parseList

/-- Reads a stylesheet. -/
def parse (text : Text) : Except ParseError Stylesheet :=
  match Outline.parse text with
  | .error e => .error (.grammar e)
  | .ok outline =>
    match ofOutline outline with
    | .error e => .error (.selector e)
    | .ok sheet => .ok sheet

end Stylesheet

end StylePrune
