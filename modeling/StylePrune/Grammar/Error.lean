import StylePrune.Grammar.Token
import StylePrune.Text.Position
import StylePrune.Text.Quoted

/-!
# Why the grammar refuses a text

A fault says what was met, and where: by the text that was left at that place. An error says the
same with the place as a line and a column of the whole text.
-/

namespace StylePrune

/-- What stops the reading of a stylesheet. -/
inductive GrammarFault where
  /-- No token begins with the first character of what is left. -/
  | noToken (rest : Text)
  /-- A token that may not stand here, with what is left, the token itself included. -/
  | unexpected (token : Token) (rest : Text)
  /-- The text ends inside a statement; what was left when its last token was read. -/
  | unfinished (last : Text)
deriving DecidableEq, Repr

/-- The cause of a refusal, apart from its place. -/
inductive GrammarCause where
  | noToken (c : Char)
  | unexpected (token : Token)
  | unfinished
deriving DecidableEq, Repr

/-- Why and where the grammar refuses a text. -/
structure GrammarError where
  cause : GrammarCause
  position : Position
deriving DecidableEq, Repr

namespace GrammarFault

def remaining : GrammarFault → Text
  | .noToken rest => rest
  | .unexpected _ rest => rest
  | .unfinished last => last

def cause : GrammarFault → GrammarCause
  | .noToken rest => .noToken (rest.headD ' ')
  | .unexpected token _ => .unexpected token
  | .unfinished _ => .unfinished

def toError (text : Text) (fault : GrammarFault) : GrammarError where
  cause := fault.cause
  position := Position.after (text.take (text.length - fault.remaining.length))

end GrammarFault

/-- The error in words, on one line. -/
def GrammarError.message (e : GrammarError) : Text :=
  let line := e.position.line
  let column := e.position.column
  match e.cause with
  | .noToken c =>
    "No terminal matches '".toList ++ c ::
      s!"' in the current parser context, at line {line} col {column}".toList
  | .unexpected token =>
    s!"Unexpected token Token('{token.label}', ".toList ++ token.text.quoted ++
      s!") at line {line}, column {column}.".toList
  | .unfinished => s!"Unexpected token Token('$END', '') at line {line}, column {column}.".toList

end StylePrune
