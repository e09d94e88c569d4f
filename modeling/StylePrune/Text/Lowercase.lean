import StylePrune.Text.Basic
import StylePrune.Text.Lowercase.Table

/-!
# Lower case

Full Unicode lower-casing. Each character has a lower-case form of its own, with two exceptions: the
capital I with a dot above becomes two characters, and a capital sigma that ends a word becomes the
final form. A sigma ends a word when the nearest character before it that is not case-ignorable is a
cased letter, and the nearest one after it is not.
-/

namespace StylePrune.Text

/-- The lower-case form of a character taken alone, by its code point. -/
def lowerCode (n : Nat) : Nat :=
  match caseRuns.find? fun run =>
      run.first ≤ n && n ≤ run.last && (n - run.first) % run.step == 0 with
  | some run => (n + run.shift).toNat
  | none => n

/-- The lower-case form of a character taken alone. -/
def lowerChar (c : Char) : Text :=
  if c.toNat < 0x80 then [c.toLower]
  else if c.toNat == 0x130 then ['i', Char.ofNat 0x307]
  else [Char.ofNat (lowerCode c.toNat)]

/-- A cased letter, as a neighbour of a capital sigma. -/
def isCased (c : Char) : Bool := inRanges casedRanges c

/-- A character that a search for the neighbour of a capital sigma passes over. -/
def isCaseIgnorable (c : Char) : Bool := inRanges caseIgnorableRanges c

/-- Whether the first character that is not case-ignorable is a cased letter. -/
def beginsCased (s : Text) : Bool :=
  match s.dropWhile isCaseIgnorable with
  | [] => false
  | c :: _ => isCased c

/-- Lower-casing from a place in a text on; `cased` says whether the nearest character before that
place which is not case-ignorable is a cased letter. -/
def lowerFrom (cased : Bool) : Text → Text
  | [] => []
  | c :: rest =>
    (if c.toNat == 0x3A3 then
      [Char.ofNat (if cased && !beginsCased rest then 0x3C2 else 0x3C3)]
    else lowerChar c) ++
    lowerFrom (if isCaseIgnorable c then cased else isCased c) rest

def lower (s : Text) : Text := lowerFrom false s

/-- The empty text has no other case. -/
@[simp] theorem lower_nil : lower [] = [] := rfl

end StylePrune.Text
