import Std.Data.HashSet.Basic
import StylePrune.Text.Basic

/-!
# Patterns

A pattern describes texts; it is matched at a place of a text and may look at what stands before
and behind that place. Where a pattern can match in several ways there is an order of preference:
of two alternatives the first, of two repetitions the longer one. `Pattern.ends` lists the places
where a match can end in that order, and what follows goes on from the first of them that lets it
match.

What follows a place depends on where the place is and not on the way there, so a repetition looks
at each place once (`Pattern.visit`), which keeps the work within a polynomial of the size of the
text.
-/

namespace StylePrune

/-- A pattern over characters. -/
inductive Pattern where
  /-- The empty text. -/
  | nothing
  /-- One character of a class. -/
  | one (isMember : Char → Bool)
  /-- Characters of a class, as many as possible. -/
  | many (isMember : Char → Bool)
  | seq (first second : Pattern)
  | alt (first second : Pattern)
  /-- Repetitions, as many as possible. -/
  | star (body : Pattern)
  /-- Remembers what the body matches as the group of this number. -/
  | group (number : Nat) (body : Pattern)
  /-- The body matches here; nothing is taken. -/
  | ahead (body : Pattern)
  /-- The body does not match here. -/
  | notAhead (body : Pattern)
  /-- The characters before this place belong to these classes, the nearest to the first. -/
  | behind (classes : List (Char → Bool))
  /-- The character before this place, if there is one, does not belong to the class. -/
  | notBehind (isMember : Char → Bool)
  /-- The start of the text. -/
  | atStart
  /-- The end of the text, or the place before a line feed that ends it. -/
  | atEnd

namespace Pattern

/-- A piece of a text that is remembered: where it begins, and how long it is. -/
structure Group where
  number : Nat
  /-- The text from the beginning of the piece on. -/
  onward : Text
  length : Nat

def Group.text (g : Group) : Text := g.onward.take g.length

/-- A place in a text, with the groups remembered on the way to it. -/
structure Place where
  /-- What stands before the place, the nearest character first. -/
  before : Text
  /-- What stands behind the place. -/
  rest : Text
  /-- The number of characters before the place. -/
  offset : Nat
  /-- The number of characters of the whole text. -/
  size : Nat
  /-- The groups, that which ended last first. -/
  groups : List Group

namespace Place

def start (s : Text) : Place := ⟨[], s, 0, s.length, []⟩

/-- A place with the piece from another place up to it remembered. -/
def remember (p : Place) (number : Nat) (start : Place) : Place :=
  { p with groups := ⟨number, start.rest, p.offset - start.offset⟩ :: p.groups }

def group? (p : Place) (number : Nat) : Option Text :=
  (p.groups.find? fun g => g.number == number).map Group.text

/-- What a group remembers, or nothing. -/
def group (p : Place) (number : Nat) : Text := (p.group? number).getD []

def lastGroup? (p : Place) : Option Nat := p.groups.head?.map Group.number

/-- The places that are reached from a place over characters of a class, the farthest first, in
front of those in `nearer`. -/
def reached (isMember : Char → Bool) (groups : List Group) (size : Nat) :
    (before rest : Text) → (offset : Nat) → (nearer : List Place) → List Place
  | before, [], offset, nearer => ⟨before, [], offset, size, groups⟩ :: nearer
  | before, c :: rest, offset, nearer =>
    let here := ⟨before, c :: rest, offset, size, groups⟩
    if isMember c then
      reached isMember groups size (c :: before) rest (offset + 1) (here :: nearer)
    else here :: nearer

end Place

/-- Whether the first characters of a text belong to the classes, one each. -/
def beginsWith : List (Char → Bool) → Text → Bool
  | [], _ => true
  | _ :: _, [] => false
  | isMember :: classes, c :: rest => isMember c && beginsWith classes rest

/-- What a search through places has still to do. -/
inductive Visit where
  /-- Go on from this place, unless the search has been here. -/
  | enter (p : Place)
  /-- Note this place: all that it leads to has been noted. -/
  | leave (p : Place)

/-- Searches the places that repeated steps lead to, in depth, and puts each of them in front of
`noted` once all that it leads to is there. At most `fresh` places are entered. -/
def visit (next : Place → List Place) :
    (fresh : Nat) → (seen : Std.HashSet Nat) → List Visit → (noted : List Place) → List Place
  | _, _, [], noted => noted
  | fresh, seen, .leave p :: todo, noted => visit next fresh seen todo (p :: noted)
  | 0, seen, .enter _ :: todo, noted => visit next 0 seen todo noted
  | fresh + 1, seen, .enter p :: todo, noted =>
    if seen.contains p.offset then visit next (fresh + 1) seen todo noted
    else
      visit next fresh (seen.insert p.offset) ((next p).map .enter ++ .leave p :: todo) noted
termination_by fresh _ todo => (fresh, todo.length)

/-- A place and all that repeated steps from it lead to, each place behind those that it leads to.
Steps never lead back, so there are no more of them than places up to the end of the text. -/
def closure (next : Place → List Place) (p : Place) : List Place :=
  (visit next (p.size - p.offset + 1) ∅ [.enter p] []).reverse

/-- The places where a match from a place on can end, the preferred one first. -/
def ends : Pattern → Place → List Place
  | nothing, p => [p]
  | one isMember, p =>
    match p.rest with
    | [] => []
    | c :: rest =>
      if isMember c then [{ p with before := c :: p.before, rest := rest, offset := p.offset + 1 }]
      else []
  | many isMember, p => Place.reached isMember p.groups p.size p.before p.rest p.offset []
  | seq first second, p => (ends first p).flatMap (ends second)
  | alt first second, p => ends first p ++ ends second p
  | star body, p => closure (ends body) p
  | group number body, p => (ends body p).map (·.remember number p)
  | ahead body, p =>
    match ends body p with
    | [] => []
    | q :: _ => [{ p with groups := q.groups }]
  | notAhead body, p => if (ends body p).isEmpty then [p] else []
  | behind classes, p => if beginsWith classes p.before then [p] else []
  | notBehind isMember, p =>
    match p.before with
    | [] => [p]
    | c :: _ => if isMember c then [] else [p]
  | atStart, p => if p.before.isEmpty then [p] else []
  | atEnd, p => if p.rest.isEmpty || p.rest == ['\n'] then [p] else []

/-- The preferred end of a match, without a look at ways that it makes needless. -/
def firstEnd? : Pattern → Place → Option Place
  | seq first second, p => (ends first p).findSome? (firstEnd? second)
  | alt first second, p =>
    match firstEnd? first p with
    | some q => some q
    | none => firstEnd? second p
  | group number body, p => (firstEnd? body p).map (·.remember number p)
  | pattern, p => (pattern.ends p).head?

/-- Nothing that is passed over would be preferred. -/
theorem firstEnd?_eq_head? (pattern : Pattern) (p : Place) :
    pattern.firstEnd? p = (pattern.ends p).head? := by
  induction pattern generalizing p with
  | seq first second _ ih => simp only [firstEnd?, ends, List.head?_flatMap, ← ih]
  | alt first second ih₁ ih₂ =>
    simp only [firstEnd?, ends, List.head?_append, ih₁, ih₂]
    cases (first.ends p).head? <;> rfl
  | group number body ih => simp only [firstEnd?, ends, List.head?_map, ih]
  | _ => rfl

def matchAt (pattern : Pattern) (p : Place) : Option Place :=
  pattern.firstEnd? { p with groups := [] }

/-- A piece of a text that was searched from front to back. -/
inductive Piece where
  /-- A character where no match begins. -/
  | plain (c : Char)
  /-- A match, with the place where it ends. -/
  | found (stop : Place)

/-- The pieces from a place on; each match begins where none before it reaches. -/
def piecesFrom (pattern : Pattern) : (bound : Nat) → Place → List Piece
  | 0, _ => []
  | bound + 1, p =>
    match p.rest with
    | [] => []
    | c :: rest =>
      let onward : Place :=
        { p with before := c :: p.before, rest := rest, offset := p.offset + 1 }
      match matchAt pattern p with
      | some q =>
        if p.offset < q.offset then .found q :: piecesFrom pattern bound q
        else .plain c :: piecesFrom pattern bound onward
      | none => .plain c :: piecesFrom pattern bound onward

def pieces (pattern : Pattern) (s : Text) : List Piece := piecesFrom pattern s.length (.start s)

def replace (pattern : Pattern) (replacement : Place → Text) (s : Text) : Text :=
  (pattern.pieces s).flatMap fun
    | .plain c => [c]
    | .found stop => replacement stop

def writeWith {σ : Type} (replacement : σ → Place → Text × σ) : σ → List Piece → Text × σ
  | state, [] => ([], state)
  | state, .plain c :: ps =>
    let (out, state) := writeWith replacement state ps
    (c :: out, state)
  | state, .found stop :: ps =>
    let (t, state) := replacement state stop
    let (out, state) := writeWith replacement state ps
    (t ++ out, state)

/-- Replaces every match in a text from front to back, with a state that replacements may change. -/
def replaceWith {σ : Type} (pattern : Pattern) (replacement : σ → Place → Text × σ) (state : σ)
    (s : Text) : Text × σ :=
  writeWith replacement state (pattern.pieces s)

/-! ## Building patterns -/

def char (c : Char) : Pattern := one (· == c)

def literal (s : String) : Pattern := s.toList.foldr (fun c p => seq (char c) p) nothing

/-- A given text, each letter of ASCII in either case. -/
def anyCase (s : String) : Pattern :=
  s.toList.foldr (fun c p => seq (one fun d => d == c.toLower || d == c.toUpper) p) nothing

def seqs (ps : List Pattern) : Pattern := ps.foldr seq nothing

def choice : List Pattern → Pattern
  | [] => notAhead nothing
  | [p] => p
  | p :: ps => alt p (choice ps)

def opt (p : Pattern) : Pattern := alt p nothing

def plus (p : Pattern) : Pattern := seq p (star p)

def some1 (isMember : Char → Bool) : Pattern := seq (one isMember) (many isMember)

/-- At least one and at most `n + 1` characters of a class, as many as possible. -/
def upTo (isMember : Char → Bool) : (n : Nat) → Pattern
  | 0 => one isMember
  | n + 1 => seq (one isMember) (opt (upTo isMember n))

end Pattern

/-- The class of the characters in a text. -/
def oneOf (members : String) (c : Char) : Bool := members.toList.contains c

def noneOf (members : String) (c : Char) : Bool := !oneOf members c

end StylePrune
