import StylePrune.Text.Lowercase

/-!
# Paths

A path is a sequence of names, perhaps from the root. Empty names and names of one dot lead nowhere
and are left out; two dots are kept, since where they lead depends on the files.
-/

namespace StylePrune

/-- A path: what it starts from, and the names on it. -/
structure Path where
  /-- Nothing for a path from the working directory, else one slash, or two. -/
  root : Text
  names : List Text
deriving DecidableEq, Repr

namespace Path

/-- The names between the slashes of a text, empty ones included. -/
def splitSlashes : Text → List Text
  | [] => [[]]
  | '/' :: rest => [] :: splitSlashes rest
  | c :: rest =>
    match splitSlashes rest with
    | [] => [[c]]
    | name :: names => (c :: name) :: names

/-- What a path starts from. Three slashes and more count as one. -/
def rootOf : Text → Text
  | '/' :: '/' :: '/' :: _ => ['/']
  | '/' :: '/' :: _ => ['/', '/']
  | '/' :: _ => ['/']
  | _ => []

/-- Whether a name leads nowhere. -/
def isIdle (name : Text) : Bool := name == [] || name == ['.']

def ofText (s : Text) : Path := ⟨rootOf s, (splitSlashes s).filter fun name => !isIdle name⟩

def text (p : Path) : Text :=
  if p.root.isEmpty && p.names.isEmpty then ['.'] else p.root ++ ['/'].intercalate p.names

def name (p : Path) : Text := p.names.getLast?.getD []

/-- The end of a file name from its last dot on, in lower case. A dot that begins or ends the name
does not count. -/
def suffix (p : Path) : Text :=
  let tail := (p.name.reverse.takeWhile (· != '.')).reverse
  let stem := p.name.length - tail.length
  if !tail.isEmpty && 1 < stem then Text.lower ('.' :: tail) else []

def maxNameBytes : Nat := 255

def maxBytes : Nat := 4095

/-- The path one name further on, where two dots lead back. -/
def child (p : Path) (name : Text) : Path :=
  if isIdle name then p
  else if name = ['.', '.'] then
    match p.names.getLast? with
    | none => if p.root.isEmpty then ⟨p.root, [name]⟩ else p
    | some last => if last = name then ⟨p.root, p.names ++ [name]⟩ else ⟨p.root, p.names.dropLast⟩
  else ⟨p.root, p.names ++ [name]⟩

end Path

end StylePrune
