import MatchingDependencies.Score

/-!
# Shortest decimals

Every finite score but zero is an integer times a power of two, and all reals
near it round to it. The shortest decimal of a score is the one with the
fewest digits among those reals. Grids of one digit, two digits and so on are
tried in turn. On each grid only the two neighbours of the exact value can
matter: the first grid with a neighbour inside the rounding interval wins, the
nearer neighbour is taken if both are inside, and an exact tie goes up.
-/

set_option autoImplicit false

namespace MatchingDependencies

structure Decimal where
  digits : Nat
  exponent : Int
  deriving DecidableEq, Repr, Inhabited

namespace Decimal

def digitCount (n : Nat) : Nat := if n < 10 then 1 else digitCount (n / 10) + 1

/-- Moves trailing zeros of the digits into the exponent. The first argument
bounds how many are moved. -/
def trim : Nat → Decimal → Decimal
  | 0, d => d
  | n+1, d =>
    if d.digits != 0 && d.digits % 10 == 0 then trim n ⟨d.digits / 10, d.exponent+1⟩ else d

end Decimal

namespace Score

def leadingBit : Nat := 0x10000000000000

def significand (s : Score) : Nat × Int :=
  let fraction := (s.magnitude &&& 0xFFFFFFFFFFFFF).toNat
  let field := (s.magnitude >>> 52).toNat
  if field = 0 then (fraction, -1074) else (fraction + leadingBit, (field : Int) - 1075)

/-- The reals that round to a score, as fractions of one denominator: least,
exact and greatest value, and whether the two ends belong to them. -/
structure Rounding where
  low : Nat
  exact : Nat
  high : Nat
  denominator : Nat
  closed : Bool

/-- Below a power of two the neighbouring score is half as far away as above
it, except where the exponent is already the least one. -/
def rounding (s : Score) : Rounding :=
  let (m, e) := s.significand
  let gap := if m = leadingBit ∧ -1074 < e then 1 else 2
  let scale := 1 <<< e.toNat
  { low := (4*m-gap)*scale
    exact := 4*m*scale
    high := (4*m+2)*scale
    denominator := 4 <<< (-e).toNat
    closed := m % 2 == 0 }

namespace Rounding

def leading (r : Rounding) : Int :=
  if r.denominator ≤ r.exact then Decimal.digitCount (r.exact / r.denominator)
  else 1 - (Decimal.digitCount ((r.denominator + r.exact - 1) / r.exact - 1) : Int)

/-- The neighbour of the exact value on the grid of the given power of ten, if
one of the two neighbours rounds back. -/
def onGrid (r : Rounding) (power : Int) : Option Decimal :=
  let unit := r.denominator * Nat.pow 10 power.toNat
  let scale := Nat.pow 10 (-power).toNat
  let floor := r.exact*scale / unit
  let inside := fun c =>
    if r.closed then r.low*scale ≤ c*unit && c*unit ≤ r.high*scale
    else r.low*scale < c*unit && c*unit < r.high*scale
  let nearerUp := unit ≤ 2*(r.exact*scale - floor*unit)
  match inside floor, inside (floor+1) with
  | true, true => some ⟨if nearerUp then floor+1 else floor, power⟩
  | true, false => some ⟨floor, power⟩
  | false, true => some ⟨floor+1, power⟩
  | false, false => none

def search (r : Rounding) : Nat → Int → Option Decimal
  | 0, _ => none
  | n+1, power => (r.onGrid power).orElse fun _ => search r n (power-1)

end Rounding

def shortest (s : Score) : Decimal :=
  let r := s.rounding
  Decimal.trim 17 ((r.search 17 (r.leading-1)).getD ⟨0, 0⟩)

end Score

end MatchingDependencies
