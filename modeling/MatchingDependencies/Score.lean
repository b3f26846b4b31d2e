/-!
# Scores

A score is a similarity of two values or a threshold on such a similarity. It
is kept as the 64 bits of a binary floating point number, so that what a
measure computes is stored unchanged, and its order is computed from the bits
alone. Scores that are numbers are ordered by value, with the two zeros equal.
A score that is not a number is comparable with nothing, yet `rank` puts it
above every number, which is the order sorted collections use.
-/

set_option autoImplicit false

namespace MatchingDependencies

structure Score where
  bits : UInt64
  deriving DecidableEq, Inhabited

namespace Score

def zero : Score := ⟨0⟩
def one : Score := ⟨0x3FF0000000000000⟩

instance : OfNat Score 0 := ⟨zero⟩
instance : OfNat Score 1 := ⟨one⟩

def ofFloat (x : Float) : Score := ⟨x.toBits⟩
def toFloat (s : Score) : Float := Float.ofBits s.bits

@[inline] def magnitude (s : Score) : UInt64 := s.bits &&& 0x7FFFFFFFFFFFFFFF
@[inline] def isNegative (s : Score) : Bool := 0x8000000000000000 ≤ s.bits

def infinite : UInt64 := 0x7FF0000000000000
def unordered : UInt64 := 0xFFFFFFFFFFFFFFFF

/-- The place of a score in the total order. Zero of either sign stands in the
middle, numbers lie around it by magnitude, and what is no number comes last. -/
def rank (s : Score) : UInt64 :=
  if infinite < s.magnitude then unordered
  else if s.isNegative then 0x8000000000000000 - s.magnitude
  else 0x8000000000000000 + s.magnitude

def isNumber (s : Score) : Bool := s.rank != unordered
@[inline] def isZero (s : Score) : Bool := s.magnitude == 0

/-- One score is at most another if it is not ranked higher and the other is a
number. The first is then a number too. -/
def atMost (a b : Score) : Bool := a.rank ≤ b.rank && b.isNumber
def below (a b : Score) : Bool := a.rank < b.rank && b.isNumber

/-- Equality of values: the zeros are the same, and what is no number is not
even the same as itself. -/
def same (a b : Score) : Bool := a.rank == b.rank && b.isNumber

instance : LE Score := ⟨fun a b => a.atMost b⟩
instance : LT Score := ⟨fun a b => a.below b⟩
instance (a b : Score) : Decidable (a ≤ b) := inferInstanceAs (Decidable (a.atMost b = true))
instance (a b : Score) : Decidable (a < b) := inferInstanceAs (Decidable (a.below b = true))

instance : Ord Score := ⟨fun a b => compare a.rank b.rank⟩

def larger (a b : Score) : Score := if a < b || !a.isNumber then b else a

def smaller (a b : Score) : Score := if b < a || !a.isNumber then b else a

def inUnit (s : Score) : Bool := 0 ≤ s && s ≤ 1

end Score

end MatchingDependencies
