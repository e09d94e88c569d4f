import StylePrune.Numeric.Shortest
import StylePrune.Selector.Basic

/-!
# Summaries

After a run two summaries can be asked for: how much smaller the stylesheet has become and how long
that took, and which selectors were rejected. Each stands between two rules of number signs.
-/

namespace StylePrune

/-- How many times smaller the result is than the source. -/
inductive Reduction where
  /-- Something has become nothing. -/
  | infinite
  | finite (negative : Bool) (magnitude : Binary)
deriving DecidableEq, Repr

namespace Reduction

/-- The ratio of two sizes, cut after the first decimal. Quotient and product are rounded to 53
binary digits on the way, and there is no ratio where one of them is too large. -/
def of? (before after : Int) : Option Reduction :=
  if after = 0 then
    if before = 0 then (Binary.nearest? 1 1).map (.finite false) else some .infinite
  else do
    let quotient ← Binary.nearest? before.natAbs after.natAbs
    let tenfold ← quotient.times? 10
    let ratio ← Binary.nearest? tenfold.floor 10
    let negative := decide (before < 0) != decide (after < 0)
    some (.finite (negative && ratio.mantissa != 0) ratio)

def text : Reduction → Text
  | .infinite => "inf".toList
  | .finite negative magnitude =>
    (if negative then ['-'] else []) ++ (Decimal.shortest magnitude).text

end Reduction

/-- A time in seconds. -/
inductive Seconds where
  /-- Whole seconds, exact however many they are. -/
  | whole (n : Int)
  /-- A time that is rounded to 53 binary digits, or too large for them. Zero has a sign, too. -/
  | rounded (negative : Bool) (magnitude : Option Binary)
deriving DecidableEq, Repr

namespace Seconds

/-- The time that a decimal `digits * 10 ^ exponent` tells. -/
def ofDecimal (negative : Bool) (d : Decimal) : Seconds :=
  rounded negative (Binary.nearest? d.num d.den)

/-- A time in whole milliseconds, which are rounded to 53 binary digits before they are counted.
There is no text for whole seconds that are too many. -/
def milliseconds? : Seconds → Option Text
  | whole n => do
    let ms ← Binary.nearest? (n.natAbs * 1000) 1
    some ((if n < 0 then ['-'] else []) ++ Nat.toDigits 10 ms.round)
  | rounded negative magnitude =>
    let ms :=
      match magnitude.bind (·.times? 1000) with
      | some ms => Nat.toDigits 10 ms.round
      | none => "inf".toList
    some ((if negative then ['-'] else []) ++ ms)

end Seconds

namespace Summary

/-- The rule that stands before and behind a summary. -/
def ruler : Text := List.replicate 34 '#'

def integer (n : Int) : Text := (if n < 0 then ['-'] else []) ++ Nat.toDigits 10 n.natAbs

/-- The summary of the sizes of source and result, and of the time taken. -/
def sizes (before after : Int) (ratio : Reduction) (took : Text) : List Text :=
  [ruler,
    "Before purify, CSS was ".toList ++ integer before ++ " chars long.".toList,
    "After purify, CSS is ".toList ++ integer after ++ " chars long. (".toList ++ ratio.text ++
      " times smaller)".toList,
    ruler,
    "This function took: ".toList ++ took ++ "ms".toList]

/-- The summary of the rejected selectors, one in a line. -/
def rejected (selectors : List Selector) : List Text :=
  [ruler, "Rejected selectors:".toList,
    ['\n'].intercalate (selectors.map Selector.shown), ruler]

end Summary

end StylePrune
