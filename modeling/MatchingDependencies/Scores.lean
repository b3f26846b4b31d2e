import MatchingDependencies.Score

/-!
# Vectors of scores

A premise holds one threshold for every column match, zero where it demands
nothing. The profile of a record pair holds one similarity for every column
match. A pair satisfies a premise if it reaches every threshold, so a premise
with lower thresholds is the more general one.
-/

set_option autoImplicit false

namespace MatchingDependencies

abbrev Scores := List Score

namespace Scores

def score : Scores → Nat → Score
  | [], _ => 0
  | s::_, 0 => s
  | _::v, i+1 => score v i

theorem score_eq_getD (v : Scores) (i : Nat) : v.score i = v.getD i 0 := by
  induction v generalizing i with
  | nil => rfl
  | cons s v ih =>
    cases i with
    | zero => rfl
    | succ i => exact (ih i).trans (by simp)

def meets (v : Scores) (column : Nat) (threshold : Score) : Bool :=
  let s := v.score column
  !s.isZero && threshold.rank ≤ s.rank

def meetsAt (v : Array Score) (column : Nat) (threshold : Score) : Bool :=
  let s := v.getD column 0
  !s.isZero && threshold.rank ≤ s.rank

theorem meetsAt_toArray (v : Scores) : meetsAt v.toArray = v.meets := by
  funext c t
  simp [meetsAt, meets, score_eq_getD]

theorem meets_nil (column : Nat) (threshold : Score) : meets [] column threshold = false := by
  simp [meets, score, show Score.isZero 0 = true from rfl]

theorem meets_cons_zero (s : Score) (v : Scores) (threshold : Score) :
    meets (s::v) 0 threshold = (!s.isZero && decide (threshold.rank ≤ s.rank)) := rfl

theorem meets_cons_succ (s : Score) (v : Scores) (column : Nat) (threshold : Score) :
    meets (s::v) (column+1) threshold = v.meets column threshold := rfl

def zeros (n : Nat) : Scores := List.replicate n 0

def cardinality (v : Scores) : Nat := v.countP (!·.isZero)

/-- The first constrained column match from a position on, or the length of
the vector if there is none. -/
def firstConstrained (v : Scores) (start : Nat) : Nat :=
  if start ≤ v.length then start + (v.drop start).findIdx (!·.isZero) else v.length

def generalizes : (general specific : Scores) → Bool
  | g::gs, s::ss => g ≤ s && generalizes gs ss
  | _, _ => true

def satisfies (profile premise : Scores) : Bool := generalizes premise profile

def same : Scores → Scores → Bool
  | [], [] => true
  | a::as, b::bs => a.same b && same as bs
  | _, _ => false

def ranks (v : Scores) : List UInt64 := v.map Score.rank

end Scores

end MatchingDependencies
