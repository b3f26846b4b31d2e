import MatchingDependencies.Scores

/-!
# Paths

A path is a premise written sparsely: what it demands, in increasing order of
columns. Premises demand something in few of their columns, so a question about
them is answered faster from their paths. The main statements say that a path
answers like the vector it was made from.
-/

set_option autoImplicit false

namespace MatchingDependencies

abbrev Path := List (Nat × Score)

namespace Scores

def constraintsFrom (first : Nat) : Scores → Path
  | [] => []
  | s::v =>
    if s.isZero then constraintsFrom (first+1) v else (first, s) :: constraintsFrom (first+1) v

def constraints (v : Scores) : Path := constraintsFrom 0 v

def constrained (v : Scores) : List Nat := v.constraints.map (·.1)

end Scores

namespace Path

/-- Constrains a column at least as much as a threshold does. The constraints
are in order of columns, so those behind the column are not looked at. -/
def meets : Path → (column : Nat) → (threshold : Score) → Bool
  | [], _, _ => false
  | (c, s)::path, column, threshold =>
    if c < column then meets path column threshold
    else c = column && threshold.rank ≤ s.rank

def score : Path → (column : Nat) → Score
  | [], _ => 0
  | (c, s)::path, column => if c = column then s else score path column

def set : Path → (column : Nat) → (threshold : Score) → Path
  | [], column, threshold => [(column, threshold)]
  | (c, s)::path, column, threshold =>
    if c < column then (c, s) :: set path column threshold
    else if c = column then (column, threshold) :: path
    else (column, threshold) :: (c, s) :: path

theorem set_of_lt (path : Path) (column : Nat) (threshold : Score)
    (h : ∀ p ∈ path, column < p.1) : path.set column threshold = (column, threshold) :: path := by
  cases path with
  | nil => rfl
  | cons p path =>
    have := h p List.mem_cons_self
    simp [set, show ¬p.1 < column by omega, show p.1 ≠ column by omega]

end Path

namespace Scores

theorem le_of_mem_constraintsFrom (v : Scores) (first : Nat) :
    ∀ p ∈ v.constraintsFrom first, first ≤ p.1 := by
  induction v generalizing first with
  | nil => simp [constraintsFrom]
  | cons s v ih =>
    intro p hp
    rw [constraintsFrom] at hp
    split at hp
    · exact Nat.le_of_succ_le (ih (first+1) p hp)
    · rcases List.mem_cons.mp hp with rfl | hp
      · exact Nat.le_refl _
      · exact Nat.le_of_succ_le (ih (first+1) p hp)

theorem constraintsFrom_set (v : Scores) (first i : Nat) (threshold : Score) (inside : i < v.length)
    (nonzero : threshold.isZero = false) :
    constraintsFrom first (v.set i threshold) =
      (v.constraintsFrom first).set (first+i) threshold := by
  induction v generalizing first i with
  | nil => exact absurd inside (Nat.not_lt_zero i)
  | cons s v ih =>
    cases i with
    | zero =>
      have behind := le_of_mem_constraintsFrom v (first+1)
      rw [List.set_cons_zero, constraintsFrom, constraintsFrom, nonzero]
      cases s.isZero with
      | true => exact (Path.set_of_lt _ first threshold behind).symm
      | false => simp [Path.set]
    | succ i =>
      rw [List.set_cons_succ, constraintsFrom, constraintsFrom,
        ih (first+1) i (Nat.lt_of_succ_lt_succ inside), Nat.add_right_comm, Nat.add_assoc]
      cases s.isZero <;> simp [Path.set]

/-- A nonzero threshold is set in a premise and in its path alike. -/
theorem constraints_set (v : Scores) (i : Nat) (threshold : Score) (inside : i < v.length)
    (nonzero : threshold.isZero = false) :
    constraints (v.set i threshold) = v.constraints.set i threshold := by
  simpa [constraints] using v.constraintsFrom_set 0 i threshold inside nonzero

theorem meets_eq_false_of_lt (path : Path) (column : Nat) (threshold : Score)
    (h : ∀ p ∈ path, column < p.1) : path.meets column threshold = false := by
  cases path with
  | nil => rfl
  | cons p path =>
    have := h p List.mem_cons_self
    simp [Path.meets, show ¬p.1 < column by omega, show p.1 ≠ column by omega]

theorem score_eq_zero_of_lt (path : Path) (column : Nat) (h : ∀ p ∈ path, column < p.1) :
    path.score column = 0 := by
  induction path with
  | nil => rfl
  | cons p path ih =>
    have := h p List.mem_cons_self
    rw [Path.score, if_neg (by omega)]
    exact ih fun p hp => h p (List.mem_cons_of_mem _ hp)

theorem score_constraintsFrom (v : Scores) (first i : Nat) :
    (v.constraintsFrom first).score (first+i) =
      if (v.score i).isZero then 0 else v.score i := by
  induction v generalizing first i with
  | nil => exact (ite_self (0 : Score)).symm
  | cons s v ih =>
    rw [constraintsFrom]
    cases i with
    | zero =>
      have behind := score_eq_zero_of_lt _ first (le_of_mem_constraintsFrom v (first+1))
      cases h : s.isZero <;> simp [Path.score, score, h, behind]
    | succ i =>
      have here := ih (first+1) i
      rw [Nat.add_right_comm, Nat.add_assoc] at here
      cases s.isZero with
      | true => exact here
      | false => exact (if_neg (by simp)).trans here

theorem score_constraints (v : Scores) (i : Nat) :
    v.constraints.score i = if (v.score i).isZero then 0 else v.score i := by
  simpa [constraints] using v.score_constraintsFrom 0 i

theorem meets_constraintsFrom (v : Scores) (first i : Nat) (threshold : Score) :
    (v.constraintsFrom first).meets (first+i) threshold = v.meets i threshold := by
  induction v generalizing first i with
  | nil => exact (meets_nil i threshold).symm
  | cons s v ih =>
    rw [constraintsFrom]
    cases i with
    | zero =>
      rw [meets_cons_zero]
      cases s.isZero with
      | true => exact meets_eq_false_of_lt _ first threshold (le_of_mem_constraintsFrom v (first+1))
      | false => simp [Path.meets]
    | succ i =>
      rw [meets_cons_succ, ← ih (first+1) i, Nat.add_right_comm, Nat.add_assoc]
      cases s.isZero <;> simp [Path.meets]

theorem meets_constraints (v : Scores) : v.constraints.meets = v.meets := by
  funext c t
  simpa [constraints] using v.meets_constraintsFrom 0 c t

end Scores

end MatchingDependencies
