import MatchingDependencies.Score.Shortest

/-!
# Nearest scores

A decimal is rounded to the nearest score; a decimal halfway between two
scores goes to the one with an even significand. Decimals too large for any
number become infinite, and those too small become zero.
-/

set_option autoImplicit false

namespace MatchingDependencies.Score

def roundedQuotient (num den : Nat) : Nat :=
  let q := num / den
  let r := 2*(num % den)
  if r < den then q else if den < r then q+1 else q + q % 2

/-- The power of two that leaves a quotient with exactly 53 binary digits, or
the least power if that would be smaller. -/
def binaryPower (num den : Nat) : Int :=
  let guess := (num.log2 : Int) - den.log2 - 53
  let fits := fun k : Int => num <<< (-k).toNat < den <<< (k.toNat + 53)
  max (if fits guess then guess else guess+1) (-1074)

/-- The nearest score to a positive quotient. A rounded significand of 54
binary digits carries into the exponent, which is the next score in order. -/
def ofQuotient (num den : Nat) : Score :=
  let k := binaryPower num den
  let m := roundedQuotient (num <<< (-k).toNat) (den <<< k.toNat)
  let bits := (k+1074).toNat * leadingBit + m
  ⟨if bits < infinite.toNat then bits.toUInt64 else infinite⟩

def negated (s : Score) : Score := ⟨s.bits ^^^ 0x8000000000000000⟩

/-- The nearest score to a decimal. The bounds only keep the powers of ten
small: beyond them the result is infinite or zero anyway. The second one
rests on a power of ten being smaller than that of eight if the exponent is
negative. -/
def ofDecimal (d : Decimal) : Score :=
  if d.digits = 0 then 0
  else if 400 < d.exponent then ⟨infinite⟩
  else if d.exponent < 0 ∧ (d.digits.log2 : Int) + 3*d.exponent < -1100 then 0
  else ofQuotient (d.digits * Nat.pow 10 d.exponent.toNat) (Nat.pow 10 (-d.exponent).toNat)

end MatchingDependencies.Score
