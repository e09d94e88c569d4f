import StylePrune.Text.Basic
import StylePrune.Text.Printable

/-!
# Quoted text

Messages show text between single quotes, or between double quotes when the text has a single quote
and no double one. The quote itself, the backslash, and the three common controls are escaped by a
backslash; any other character that is not printable is written as its code point in hexadecimal.
-/

namespace StylePrune.Text

/-- The `width` lowest hexadecimal digits of a number, in lower case. -/
def hexDigits : (width : Nat) → Nat → Text
  | 0, _ => []
  | width + 1, n => hexDigits width (n / 16) ++ [Nat.digitChar (n % 16)]

/-- A code point as an escape of the shortest form that holds it: two, four or eight digits. -/
def codeEscape (c : Char) : Text :=
  let n := c.toNat
  if n < 0x100 then '\\' :: 'x' :: hexDigits 2 n
  else if n < 0x10000 then '\\' :: 'u' :: hexDigits 4 n
  else '\\' :: 'U' :: hexDigits 8 n

/-- How quoted text shows one character, given the quote around it. -/
def quotedChar (quote c : Char) : Text :=
  if c == quote || c == '\\' then ['\\', c]
  else if c == '\n' then ['\\', 'n']
  else if c == '\r' then ['\\', 'r']
  else if c == '\t' then ['\\', 't']
  else if isPrintable c then [c]
  else codeEscape c

/-- The quote to use: the single one, unless the text has a single quote and no double quote. -/
def quoteFor (s : Text) : Char :=
  if s.contains '\x27' && !s.contains '\x22' then '\x22' else '\x27'

/-- The text between quotes, with escapes. -/
def quoted (s : Text) : Text :=
  let quote := quoteFor s
  quote :: s.flatMap (quotedChar quote) ++ [quote]

end StylePrune.Text
