import StylePrune.Numeric.Binary
import StylePrune.Text.Basic

/-!
# The shortest decimal of a number

A number of 53 binary digits is written with the fewest decimal digits that read back as it; of the
decimals with that many digits that read back, the nearest one is taken, and of two that are as near
the one whose last digit is even. Seventeen digits always read back.

From `10 ^ -4` up to, but not including, `10 ^ 16` the digits are written around a decimal point,
with at least one digit on either side; smaller and larger numbers are written with an exponent of
at least two digits.
-/

namespace StylePrune

/-- The number `digits * 10 ^ exponent`. -/
structure Decimal where
  digits : Nat
  exponent : Int
deriving DecidableEq, Repr

namespace Decimal

/-- The numerator of a decimal as a quotient of integers. -/
def num (d : Decimal) : Nat := d.digits * Nat.pow 10 d.exponent.toNat

def den (d : Decimal) : Nat := Nat.pow 10 (-d.exponent).toNat

/-- Whether a decimal reads back as a number. -/
def readsAs (d : Decimal) (b : Binary) : Bool := Binary.nearest? d.num d.den == some b

/-- The exponent of the first digit of a quotient that is not zero. -/
def leadingExponent (num den : Nat) : Int :=
  if den ≤ num then ((Nat.toDigits 10 (num / den)).length : Int) - 1
  else
    match (List.range 400).find? fun j => den ≤ num * Nat.pow 10 j with
    | some j => -j
    | none => -400

/-- The decimal with `count` digits that reads back as a number and is nearest to it, if one does;
of two that are as near, the even one. -/
def withDigits? (b : Binary) (count : Nat) : Option Decimal :=
  let grid : Int := leadingExponent b.num b.den - count + 1
  let n := b.num * Nat.pow 10 (-grid).toNat
  let d := b.den * Nat.pow 10 grid.toNat
  let below : Decimal := ⟨n / d, grid⟩
  let above : Decimal := ⟨n / d + 1, grid⟩
  match below.readsAs b, above.readsAs b with
  | true, true => some ⟨Binary.roundQuotient n d, grid⟩
  | true, false => some below
  | false, true => some above
  | false, false => none

/-- The decimal of fewest digits that reads back as a number, and is the nearest of these. -/
def shortest (b : Binary) : Decimal :=
  if b.mantissa = 0 then ⟨0, 0⟩
  else ((List.range 17).findSome? fun k => withDigits? b (k + 1)).getD ⟨0, 0⟩

/-- The digits of a number without zeros at their end, and the number of zeros left out. -/
def significant (digits : Nat) : Text × Nat :=
  let s := Nat.toDigits 10 digits
  let kept := (s.reverse.dropWhile (· == '0')).reverse
  (kept, s.length - kept.length)

def text (d : Decimal) : Text :=
  if d.digits = 0 then ['0', '.', '0']
  else
    let (s, zeros) := significant d.digits
    let point : Int := s.length + zeros + d.exponent
    if -4 < point && point ≤ 16 then
      if point ≤ 0 then '0' :: '.' :: List.replicate (-point).toNat '0' ++ s
      else
        let whole := s.take point.toNat
        let fraction := s.drop point.toNat
        whole ++ List.replicate (point.toNat - whole.length) '0' ++
          '.' :: if fraction.isEmpty then ['0'] else fraction
    else
      let exponent := point - 1
      let digits := Nat.toDigits 10 exponent.natAbs
      s.take 1 ++ (if s.length ≤ 1 then [] else '.' :: s.drop 1) ++
        'e' :: (if exponent < 0 then '-' else '+') ::
          List.replicate (2 - digits.length) '0' ++ digits

end Decimal

end StylePrune
