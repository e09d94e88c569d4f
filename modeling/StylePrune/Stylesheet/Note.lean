import StylePrune.Stylesheet.Parse

/-!
# Notes on opaque blocks

The block of a conditional at-rule stays opaque when the grammar refuses what is in it. Reading a
stylesheet leaves a note on each such block, in the order in which the blocks are met; reading that
stops at a selector leaves only the notes before it.

The lines in a note count within the text that the at-rule stands in: the whole text, or the block
of the group around it.
-/

namespace StylePrune

/-- A block that stays opaque, with the reason. -/
structure OpaqueBlock where
  keyword : Text
  /-- The line on which the keyword begins. -/
  line : Nat
  reason : GrammarError
deriving DecidableEq, Repr

/-- The note in words, cut at the end of its first line. -/
def OpaqueBlock.note (b : OpaqueBlock) : Text :=
  Text.firstLine ("Keeping ".toList ++ b.keyword ++
    s!" block at line {b.line} opaque: ".toList ++ b.reason.message)

/-- What is met while the rule heads of an outline are read. -/
inductive Encounter where
  /-- A rule with this head. -/
  | head (text : Text)
  /-- A block that stays opaque. -/
  | opaqueBlock (b : OpaqueBlock)
deriving DecidableEq, Repr

namespace Outline

def text (o : Outline) : Text := Sheet.text id o

def lineEnds (s : Text) : Nat := s.count '\n'

/-- What is met in an outline from front to back, when its text begins on the given line. -/
def encounters (line : Nat) : Outline → List Encounter
  | .done _ => []
  | .rule leading head block next =>
    .head head :: encounters (line + lineEnds (leading ++ head ++ block)) next
  | .atRule leading keyword prelude block next =>
    let behind := encounters
      (line + lineEnds (leading ++ keyword ++ prelude ++ block.getD [])) next
    match block with
    | some block =>
      if AtRule.isConditional keyword then
        match Statement.readAll (block.drop 1).dropLast with
        | .error reason =>
          .opaqueBlock ⟨keyword, line + lineEnds leading, reason⟩ :: behind
        | .ok _ => behind
      else behind
    | none => behind
  | .group leading keyword prelude _ body next =>
    encounters 1 body ++
      encounters (line + lineEnds (leading ++ keyword ++ prelude ++ text body)) next
  | .comment leading t next => encounters (line + lineEnds (leading ++ t)) next
  | .unknown _ next => encounters line next

/-- Whether what is met lets the reading go on: anything but a head that is no list of selectors. -/
def letsOn : Encounter → Bool
  | .head head =>
    match Selector.parseList head with
    | .ok _ => true
    | .error _ => false
  | .opaqueBlock _ => true

/-- The blocks that stay opaque, up to the first head that is refused. -/
def opaqueBlocks (o : Outline) : List OpaqueBlock :=
  ((encounters 1 o).takeWhile letsOn).filterMap fun
    | .head _ => none
    | .opaqueBlock b => some b

end Outline

/-- The notes that reading a text leaves. -/
def Stylesheet.notes (text : Text) : List Text :=
  match Outline.parse text with
  | .error _ => []
  | .ok outline => outline.opaqueBlocks.map OpaqueBlock.note

end StylePrune
