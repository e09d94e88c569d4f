/-!
# Numbers of 53 binary digits

Sizes are compared in numbers that hold 53 binary digits: a mantissa below `2 ^ 53` times a power of
two not below `2 ^ -1074`, all of it below `2 ^ 1024`. A quotient is replaced by the nearest such
number, and lies it halfway between two of them, by the one with the even mantissa.

Signs are left to the callers: the numbers here are not negative.
-/

namespace StylePrune

/-- The number `mantissa * 2 ^ exponent`. -/
structure Binary where
  mantissa : Nat
  exponent : Int
deriving DecidableEq, Repr

namespace Binary

def precision : Nat := 53

def minExponent : Int := -1074

/-- The integer nearest to a quotient; of two that are as near, the even one. -/
def roundQuotient (num den : Nat) : Nat :=
  let q := num / den
  let r := num % den
  if 2 * r < den then q
  else if den < 2 * r then q + 1
  else q + q % 2

/-- The quotient, divided by `2 ^ e`, as a quotient. -/
def scaled (num den : Nat) (e : Int) : Nat × Nat :=
  if 0 ≤ e then (num, den * Nat.pow 2 e.toNat) else (num * Nat.pow 2 (-e).toNat, den)

/-- The number whose mantissa may have one digit too many, which then ends in zeros. -/
def normalized (mantissa : Nat) (exponent : Int) : Binary :=
  if mantissa = Nat.pow 2 precision then ⟨Nat.pow 2 (precision - 1), exponent + 1⟩
  else ⟨mantissa, exponent⟩

/-- The number nearest to a quotient, unless it is too large. -/
def nearest? (num den : Nat) : Option Binary :=
  if num = 0 then some ⟨0, 0⟩
  else
    let low : Int := (num.log2 : Int) - den.log2 - precision
    -- one of two neighbouring exponents gives the mantissa its 53 digits
    let (n, d) := scaled num den low
    let fitting := if n / d < Nat.pow 2 precision then low else low + 1
    let exponent := if fitting < minExponent then minExponent else fitting
    let (n, d) := scaled num den exponent
    let b := normalized (roundQuotient n d) exponent
    if b.exponent + precision ≤ 1024 then some b else none

/-- The numerator of a number as a quotient of integers. -/
def num (b : Binary) : Nat := b.mantissa * Nat.pow 2 b.exponent.toNat

def den (b : Binary) : Nat := Nat.pow 2 (-b.exponent).toNat

/-- A number times an integer, rounded. -/
def times? (b : Binary) (n : Nat) : Option Binary := nearest? (b.num * n) b.den

def floor (b : Binary) : Nat := b.num / b.den

/-- The integer nearest to a number; of two that are as near, the even one. -/
def round (b : Binary) : Nat := roundQuotient b.num b.den

end Binary

end StylePrune
