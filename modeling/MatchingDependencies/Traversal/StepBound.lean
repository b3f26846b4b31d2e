import MatchingDependencies.Counting
import MatchingDependencies.Dataset
import MatchingDependencies.Lattice

/-!
# How long a traversal can take

A number of steps that suffices for a traversal of a lattice. It has so many
digits that it is never computed: `enoughDoublings` is found from logarithms,
and the main statement says that two to this power is greater.
-/

set_option autoImplicit false

namespace MatchingDependencies.Traversal

def thresholdCount (d : Dataset) (l : Lattice) (m : Nat) : Nat :=
  (d.comparison m).boundaries.size + l.claims.size + 1

def claimCount (d : Dataset) (l : Lattice) : Nat :=
  d.width * productOver (thresholdCount d l) (List.range d.width)

def boundCount (d : Dataset) (l : Lattice) : Nat :=
  sumOver (fun m => thresholdCount d l m + 2) (List.range d.width) + d.width*l.claims.size

def height (d : Dataset) (l : Lattice) : Nat :=
  sumOver (thresholdCount d l) (List.range d.width)

/-- By how much the changes can multiply with one step of specialization. -/
def growth (d : Dataset) (l : Lattice) : Nat := (claimCount d l + 2)*(boundCount d l + 2)

def stepsBetweenChanges (d : Dataset) (l : Lattice) : Nat :=
  (l.maxLevel+d.width+2)*(claimCount d l + 2)

/-- A claim is raised only when a generalization of it is lowered, and lowered
at most once for each value between two raises. So the changes at most
multiply with every step of specialization, and between two changes every
level is passed at most once with at most one batch for each claim. -/
def enoughSteps (d : Dataset) (l : Lattice) : Nat :=
  (Nat.pow (growth d l) (height d l + 1) + 1) * stepsBetweenChanges d l

def binaryDigits (n : Nat) : Nat := n.log2 + 1

theorem two_pow_add (m n : Nat) : Nat.pow 2 (m + n) = Nat.pow 2 m * Nat.pow 2 n :=
  Nat.pow_add 2 m n

theorem two_pow_mul (m n : Nat) : Nat.pow 2 (m * n) = Nat.pow (Nat.pow 2 m) n :=
  Nat.pow_mul 2 m n

theorem lt_two_pow_binaryDigits (n : Nat) : n < Nat.pow 2 (binaryDigits n) := Nat.lt_log2_self

/-- The digits of a power are at most the digits of the base times the exponent,
and those of a product at most the digits of both factors together. -/
def enoughDoublings (d : Dataset) (l : Lattice) : Nat :=
  binaryDigits (growth d l) * (height d l + 1) + binaryDigits (stepsBetweenChanges d l)

theorem enoughSteps_lt_two_pow (d : Dataset) (l : Lattice) :
    enoughSteps d l < Nat.pow 2 (enoughDoublings d l) := by
  have power : Nat.pow (growth d l) (height d l + 1)
      < Nat.pow (Nat.pow 2 (binaryDigits (growth d l))) (height d l + 1) :=
    Nat.pow_lt_pow_left (lt_two_pow_binaryDigits _) (Nat.succ_ne_zero _)
  rw [enoughSteps, enoughDoublings, two_pow_add, two_pow_mul]
  exact Nat.mul_lt_mul_of_le_of_lt power (lt_two_pow_binaryDigits _) (Nat.zero_lt_of_lt power)

end MatchingDependencies.Traversal
