import StylePrune.Compact.Basic
import StylePrune.Text.Lowercase

/-!
# Compact stylesheets

`Compact.style` removes from a stylesheet the spaces, comments and semicolons that it can do
without. It does not read the structure of the stylesheet: one pattern finds the pieces that need
care, and a small state tells whether a place lies inside a block. Comments that old browsers take
as switches are kept in a short form.
-/

namespace StylePrune.Compact.Style

open Pattern

/-! ## Vocabulary -/

def isSpaceChar : Char → Bool := oneOf "\r\n\x0c \t"

def lineEnd : Pattern :=
  alt (one (oneOf "\n\x0c")) (seq (char '\r') (opt (char '\n')))

def isHexChar : Char → Bool := oneOf "0123456789abcdefABCDEF"

/-- An escape: a backslash with the digits of a code point or with another character. -/
def escape : Pattern :=
  seq (char '\\')
    (alt
      (seq (upTo isHexChar 5)
        (opt (alt (one (oneOf " \n\t\x0c")) (seq (char '\r') (opt (char '\n'))))))
      (one fun c => !(c == '\n' || c == '\r' || c == '\x0c' || isHexChar c)))

def isNameChar (c : Char) : Bool :=
  c == '-' || c.isAlphanum || c == '_' || 0x80 ≤ c.toNat

/-- Strings between quotes of either kind. -/
def stringsOf (stops : String) (escaped : Pattern) : Pattern :=
  alt (stringOf '\x27' stops escaped) (stringOf '\x22' stops escaped)

def strings : Pattern := stringsOf "\r\n\x0c" (one (noneOf "\r\n\x0c"))

/-- What a backslash takes along where it may take the end of a line. -/
def escapedOrLine : Pattern := alt (one (noneOf "\r")) (seq (char '\r') (opt (char '\n')))

/-- Strings that a backslash at the end of a line continues. -/
def continuedStrings : Pattern := stringsOf "\r\n\x0c" escapedOrLine

def locationStrings : Pattern := stringsOf "" escapedOrLine

def escapedLine : Pattern := seq (char '\\') lineEnd

def space : Pattern := alt (one isSpaceChar) comment

/-- A combinator with an empty comment, which one old browser does not understand. -/
def guardedCombinator : Pattern := literal ">/**/"

def isLocationChar (c : Char) : Bool :=
  0x20 < c.toNat && c != '\x7f' && noneOf "\x22\x27()\\" c

/-- A location without quotes, which may be broken by spaces and ends of lines. It does not end in
spaces, nor in the first end of a line that breaks it. -/
def bareLocation : Pattern :=
  let item := choice [one isLocationChar, escape, escapedLine]
  seqs [many isLocationChar, star (seq escape (many isLocationChar)),
    opt (seqs [alt (some1 isSpaceChar) (plus escapedLine), item,
      star (alt item (seq (some1 isSpaceChar) item))])]

/-- A character that needs no care. -/
def isDull : Char → Bool := noneOf "\\\x22&\x27u>@\r\n\x0c \t/;:\x7b\x7d+"

/-- A character that needs no care behind an escape: there the nesting selector needs none. -/
def isDullOrNesting (c : Char) : Bool := isDull c || c == '&'

/-- The keywords whose blocks hold rules. -/
def groupKeyword : Pattern :=
  seqs [char '@',
    choice [anyCase "media", anyCase "supports", anyCase "document",
      seq
        (opt (seqs [char '-',
          choice [anyCase "webkit", anyCase "moz", anyCase "o", anyCase "ms"], char '-']))
        (anyCase "keyframes")]]

/-- The pieces of a stylesheet that need care; the numbers of the groups tell them apart. -/
def piece : Pattern :=
  choice [
    group 1 (some1 isDull),
    -- spaces behind a character that ends what comes before, and at the start of the text
    seq (behind [oneOf "\x7b\x7d(=:>[,!"]) (group 2 (plus space)),
    seq atStart (group 3 (plus space)),
    -- other spaces, with the character behind them if none need stand before it
    seqs [notBehind (oneOf "&"), group 4 (plus space),
      ahead (opt (group 5 (alt (group 6 (one (oneOf ":\x7b\x7d);=>],!"))) atEnd)))],
    -- semicolons, with the brace behind them if there is one
    seqs [char ';', group 7 (seq (star space) (star (seq (char ';') (star space)))),
      ahead (opt (group 8 (char '}')))],
    group 9 (char '{'),
    group 10 (char '}'),
    -- strings and locations keep what is in them
    group 11 strings,
    seqs [notBehind isNameChar, literal "url(", many isSpaceChar,
      group 12 (alt locationStrings bareLocation), many isSpaceChar, char ')'],
    seq (group 13 groupKeyword) (notAhead (one isNameChar)),
    -- the nesting selector keeps a space in front of what follows it
    seqs [group 14 (char '&'), group 15 (plus space),
      ahead (group 16 (alt (one (noneOf "\n")) atEnd))],
    -- what old browsers need help with
    seq (group 17 guardedCombinator) (group 18 (star space)),
    seqs [group 19 (seq (anyCase ":first-l") (alt (anyCase "ine") (anyCase "etter"))),
      group 20 (star space), ahead (one (oneOf "\x7b,"))],
    group 21 continuedStrings,
    group 22 (seq escape (many isDullOrNesting))]

/-! ## State -/

/-- What is known at a place of the stylesheet. -/
structure Context where
  /-- A comment has switched one old browser off, and none has switched it on again. -/
  hidden : Bool
  /-- The number of open blocks that hold declarations. -/
  rules : Nat
  /-- The number of group keywords whose blocks have not begun. -/
  groups : Nat

def Context.start : Context := ⟨false, 0, 0⟩

/-- Whether a place lies outside all blocks, and behind no group keyword. -/
def Context.isOutside (c : Context) : Bool := c.rules == 0 && c.groups == 0

/-- Runs of spaces and semicolons, and runs of comments. -/
def spacing : Pattern :=
  alt (some1 (oneOf "\r\n\x0c \t;")) (group 1 (plus comment))

/-- What is left of a run of spaces and comments: nothing, or the short form of a comment that
switches an old browser off or on. -/
def shortSpacing (context : Context) (s : Text) : Text × Context :=
  spacing.replaceWith (fun context stop =>
    if stop.lastGroup?.isSome then
      if ['\\', '*', '/'].isSuffixOf (stop.group 1) then
        if context.hidden then ([], context)
        else ("/*\\*/".toList, { context with hidden := true })
      else if context.hidden then ("/**/".toList, { context with hidden := false })
      else ([], context)
    else ([], context)) context s

def dataLocation : Pattern :=
  seqs [one (oneOf "\x27\x22"), anyCase "data", char ':',
    group 1 (many fun c => 0x20 < c.toNat && noneOf "\\\x22\x27," c), char ',']

def locationSpacing : Pattern :=
  choice [group 1 (plus escape), some1 isSpaceChar, plus escapedLine]

/-- A location without spaces; data that is not encoded keeps them. -/
def shortLocation (location : Text) : Text :=
  let keepsSpaces :=
    match dataLocation.matchAt (.start location) with
    | some stop => !";base64".toList.isSuffixOf (stop.group 1).lower
    | none => false
  if keepsSpaces then location else locationSpacing.replace (fun stop => stop.group 1) location

def thenSpacing (s : Text) (spaces : Text) (context : Context) : Text × Context :=
  let (t, context) := shortSpacing context spaces
  (s ++ t, context)

def replacement (context : Context) (stop : Place) : Text × Context :=
  let g := stop.group
  match stop.lastGroup? with
  | some 1 => (g 1, context)
  | some 2 => shortSpacing context (g 2)
  | some 3 => shortSpacing context (g 3)
  | some 4 | some 5 | some 6 =>
    -- a space is kept between names, and before a colon where it separates selectors
    if (stop.group? 5).isNone || (g 6 == [':'] && context.isOutside) then
      thenSpacing [' '] (g 4) context
    else shortSpacing context (g 4)
  | some 7 => thenSpacing [';'] (g 7) context
  | some 8 =>
    if context.rules != 0 then shortSpacing context (g 7) else thenSpacing [';'] (g 7) context
  | some 9 =>
    (['{'], if context.groups != 0 then { context with groups := context.groups - 1 }
      else { context with rules := context.rules + 1 })
  | some 10 => (['}'], { context with rules := context.rules - 1 })
  | some 11 => (g 11, context)
  | some 12 => ("url(".toList ++ shortLocation (g 12) ++ [')'], context)
  | some 13 => (g 13, { context with groups := context.groups + 1 })
  | some 16 =>
    let uncommented := comment.replace (fun _ => []) (g 15)
    let keepsSpace := !(g 16).isEmpty && !uncommented.isEmpty
    thenSpacing (g 14 ++ if keepsSpace then [' '] else []) (g 15) context
  | some 18 =>
    if context.isOutside then thenSpacing (g 17) (g 18) { context with hidden := false }
    else thenSpacing ['>'] (g 18) context
  | some 20 => thenSpacing (g 19 ++ [' ']) (g 20) context
  | some 21 => (escapedLine.replace (fun _ => []) (g 21), context)
  | some 22 => ((some1 (oneOf "\r\n\x0c\t")).replace (fun _ => [' ']) (g 22), context)
  | _ => ([], context)

end StylePrune.Compact.Style

namespace StylePrune

/-- A stylesheet without what it can do without. -/
def Compact.style (s : Text) : Text :=
  (Compact.Style.piece.replaceWith Compact.Style.replacement .start s).1

end StylePrune
