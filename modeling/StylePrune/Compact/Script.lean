import StylePrune.Compact.Basic

/-!
# Compact scripts

`Compact.script` removes from a script the spaces and comments that it can do without, which puts
names next to the quotes and operators around them. It does not read the structure of the script:
strings and regular expressions are told from operators by what stands before them.
-/

namespace StylePrune.Compact.Script

open Pattern

/-! ## Vocabulary -/

/-- A space that ends no line, or another control character that ends none. -/
def isSpaceChar (c : Char) : Bool := c.toNat ≤ 0x20 && c != '\n' && c != '\r'

def space : Pattern := alt (one isSpaceChar) comment

/-- The end of a line, with the comment before it. -/
def newline : Pattern := seq (opt (seq (literal "//") (many (noneOf "\r\n")))) (one (oneOf "\r\n"))

/-- What a backslash takes along inside a string. -/
def escaped : Pattern :=
  choice [one (noneOf "\r\n"), seq (opt (char '\r')) (char '\n'), char '\r']

def strings : Pattern :=
  choice [stringOf '\x27' "\r\n" escaped, stringOf '\x22' "\r\n" escaped,
    stringOf '\x60' "" escaped]

def charClass : Pattern :=
  let plain := many (noneOf "\\]\r\n")
  seqs [char '[', plain, star (seqs [char '\\', one (noneOf "\r\n"), plain]), char ']']

def regex : Pattern :=
  let plain := many (noneOf "/\\[\r\n")
  seqs [char '/', notAhead (one (oneOf "\r\n/*")), plain,
    star (seq (alt (seq (char '\\') (one (noneOf "\r\n"))) charClass) plain), char '/',
    many fun c => 'a' ≤ c && c ≤ 'z']

def blankRun : Pattern := seq (star space) (star (seq newline (star space)))

/-- Spaces and at least one end of a line. -/
def lineBreak : Pattern := seq (star space) (plus (seq newline (star space)))

/-! ## Characters that tell what may follow -/

/-- Behind such a character a slash begins a regular expression. -/
def beginsOperand : Char → Bool := oneOf "(,=:[!&|?\x7b\x7d;\r\n+*-"

/-- A character of which names and numbers are made. -/
def isNameChar (c : Char) : Bool := c.isAlphanum || c == '$' || c == '_' || 0x7F ≤ c.toNat

def beginsStatement (c : Char) : Bool :=
  0x20 < c.toNat && noneOf "\x22#%&\x27)*,./:;<=>?@\\]^\x60|\x7d~" c

def endsStatement (c : Char) : Bool :=
  0x21 < c.toNat && noneOf "#%&(*,./:;<=>?@[\\^\x7b|~" c

/-- A character behind a regular expression and a line end that keeps the line end. -/
def keepsLine (c : Char) : Bool := 0x20 < c.toNat && noneOf "&)+,.:;=?]|\x7d-" c

def isDull (c : Char) : Bool := 0x20 < c.toNat && noneOf "\x27\x22\x60/" c

/-- The pieces of a script that need care; the numbers of the groups tell them apart. -/
def piece : Pattern :=
  let keptBreak (number : Nat) := opt (group number (seq lineBreak (ahead (one keepsLine))))
  choice [
    group 1 (some1 isDull),
    group 2 (seq strings (many isDull)),
    -- behind a parenthesis a slash begins a regular expression only if a method of it is called
    seqs [behind [oneOf ")"], blankRun, group 3 regex,
      ahead (seqs [blankRun, char '.', blankRun, one fun c => 'a' ≤ c && c ≤ 'z'])],
    -- behind an operator it always does, and behind `return`, which may end its line
    seqs [behind [beginsOperand], blankRun, group 4 regex, keptBreak 5],
    seqs [behind (["n", "r", "u", "t", "e", "r"].map oneOf ++ [fun c => !isNameChar c]),
      star space, star (seq (group 6 newline) (star space)), group 7 regex, keptBreak 8],
    -- a line end that may separate two statements, and spaces that separate two tokens
    seqs [behind [endsStatement], star space, plus (seq (group 9 newline) (star space)),
      ahead (one beginsStatement)],
    seqs [behind [isNameChar], plus (group 10 space), ahead (one isNameChar)],
    seqs [behind [oneOf "+"], plus (group 11 space), ahead (char '+')],
    seqs [behind [oneOf "-"], plus (group 12 space), ahead (char '-')],
    -- all other spaces and line ends go
    plus space,
    plus (seq newline (star space))]

def replacement (stop : Place) : Text :=
  let g := stop.group
  let line (number : Nat) : Text := if (g number).isEmpty then [] else ['\n']
  if !(g 1).isEmpty then g 1
  else if !(g 2).isEmpty then g 2
  else if !(g 3).isEmpty then g 3
  else if !(g 4).isEmpty then g 4 ++ line 5
  else if !(g 7).isEmpty then line 6 ++ g 7 ++ line 8
  else if !(g 9).isEmpty then ['\n']
  else if !(g 10).isEmpty || !(g 11).isEmpty || !(g 12).isEmpty then [' ']
  else []

end StylePrune.Compact.Script

namespace StylePrune

/-- A script without what it can do without. -/
def Compact.script (s : Text) : Text :=
  (Compact.Script.piece.replace Compact.Script.replacement ('\n' :: s ++ ['\n'])).trim

/-- The compact form of a script, or the script itself where it cannot be compacted. -/
def Compact.orSame (compact : Text → Option Text) (s : Text) : Text := (compact s).getD s

/-- A script followed by its compact form, unless they are the same. -/
def Compact.widenedBy (compact : Text → Option Text) (s : Text) : Text :=
  if orSame compact s = s then s else s ++ ' ' :: orSame compact s

def Compact.widened (s : Text) : Text := widenedBy (fun s => some (script s)) s

end StylePrune
