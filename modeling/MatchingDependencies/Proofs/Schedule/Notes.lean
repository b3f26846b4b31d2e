import MatchingDependencies.Proofs.Schedule.Memo

/-!
# Notes of a schedule

A schedule is told which bounds it handed out and which ones validation settled
on, and now and then it forgets everything. What it remembers of a claim is the
last bound it was told since. A bound that validation settled on does not count
for a node of which nothing was handed out.
-/

set_option autoImplicit false

namespace MatchingDependencies

inductive Note where
  | handedOut (node index : Nat) (bound : Score)
  | settled (node index : Nat) (bound : Score)
  | forgotten

namespace Note

def mention : List Note → (node : Nat) → Bool
  | [], _ => false
  | .handedOut n _ _::notes, node => n == node || mention notes node
  | .settled ..::notes, node => mention notes node
  | .forgotten::_, _ => false

def last : List Note → (node index : Nat) → Option Score
  | [], _, _ => none
  | .handedOut n i b::notes, node, index =>
    if node = n ∧ index = i then some b else last notes node index
  | .settled n i b::notes, node, index =>
    if (node = n ∧ index = i) ∧ mention notes node = true then some b else last notes node index
  | .forgotten::_, _, _ => none

def ofCandidate (l : Lattice) (c : Candidate) : List Note :=
  c.indices.map fun i => .handedOut c.node i (l.bound c.premise.constraints i)

def ofBatch (l : Lattice) (batch : List Candidate) : List Note :=
  (batch.flatMap (ofCandidate l)).reverse

end Note

namespace Schedule

structure Remembers (notes : List Note) (s : Schedule) : Prop where
  mention : ∀ n, s.handedOut.contains n = Note.mention notes n
  last : ∀ n i b, s.isSettled n i b = (Note.last notes n i).any (·.same b)

/-- The schedules that calls lead to, with their notes. Every call may come with
another lattice. -/
inductive Told : List Note → Schedule → Prop
  | start : Told [] Schedule.start
  | handOut {notes : List Note} {s : Schedule} (h : Told notes s) (l : Lattice)
      (some : (s.nextBatch l).1 ≠ []) :
      Told (Note.ofBatch l (s.nextBatch l).1 ++ notes) (s.nextBatch l).2
  | endLevel {notes : List Note} {s : Schedule} (h : Told notes s) (l : Lattice)
      (none : (s.nextBatch l).1 = []) : Told (.forgotten::notes) (s.nextBatch l).2
  | settle {notes : List Note} {s : Schedule} (h : Told notes s) (node index : Nat)
      (bound : Score) : Told (.settled node index bound::notes) (s.settle node index bound)
  | rewind {notes : List Note} {s : Schedule} (h : Told notes s) {level : Nat}
      (le : level ≤ s.level) : Told (.forgotten::notes) (s.rewind level)
  | stay {notes : List Note} {s : Schedule} (h : Told notes s) {level : Nat}
      (lt : s.level < level) : Told notes (s.rewind level)

variable {notes : List Note} {s : Schedule} {l : Lattice}

theorem nextBatch_fst (s : Schedule) (l : Lattice) :
    (s.nextBatch l).1 = (s.accepted l).selected := by
  rw [nextBatch_eq]
  split
  · next none => rw [none]
  · rfl

theorem nextBatch_of_nil (none : (s.nextBatch l).1 = []) :
    s.nextBatch l = ([], ⟨s.level+1, ∅⟩) := by
  rw [nextBatch_fst] at none
  rw [nextBatch_eq, none]

theorem nextBatch_of_ne_nil (some : (s.nextBatch l).1 ≠ []) :
    (s.nextBatch l).2 = (s.nextBatch l).1.foldl (handOut l) s := by
  rw [nextBatch_fst] at some
  rw [nextBatch_eq]
  split
  · next none => exact absurd none some
  · rfl

namespace Remembers

theorem cleared (notes : List Note) (level : Nat) :
    Remembers (.forgotten::notes) ⟨level, ∅⟩ := by
  constructor
  · intro n
    exact Std.HashMap.contains_empty
  · intro n i b
    simp [isSettled, Note.last]

theorem remember (h : Remembers notes s) (node index : Nat) (bound : Score) :
    Remembers (.handedOut node index bound::notes) (s.remember node index bound) := by
  constructor
  · intro n
    rw [Schedule.remember, Std.HashMap.contains_insert, h.mention, Note.mention]
  · intro n i b
    rw [isSettled_remember, h.last, Note.last]
    split <;> rfl

theorem settle (h : Remembers notes s) (node index : Nat) (bound : Score) :
    Remembers (.settled node index bound::notes) (s.settle node index bound) := by
  rw [Schedule.settle]
  split
  · next known =>
    have mentioned := (h.mention node).symm.trans known
    constructor
    · intro n
      rw [Schedule.remember, Std.HashMap.contains_insert, h.mention, Note.mention]
      by_cases same : node = n
      · simp [← same, mentioned]
      · simp [same]
    · intro n i b
      rw [isSettled_remember, h.last, Note.last]
      by_cases same : n = node ∧ i = index
      · rw [if_pos same, if_pos ⟨same, by rw [same.1, mentioned]⟩]
        rfl
      · rw [if_neg same, if_neg (mt And.left same)]
  · next unknown =>
    rw [h.mention, Bool.not_eq_true] at unknown
    constructor
    · exact h.mention
    · intro n i b
      rw [h.last, Note.last, if_neg]
      rintro ⟨⟨rfl, -⟩, mentioned⟩
      rw [unknown] at mentioned
      cases mentioned

theorem handOut (h : Remembers notes s) (l : Lattice) (c : Candidate) :
    Remembers ((Note.ofCandidate l c).reverse ++ notes) (handOut l s c) := by
  rw [Schedule.handOut, Note.ofCandidate]
  induction c.indices generalizing notes s with
  | nil => exact h
  | cons i indices ih =>
    have rest := ih (h.remember c.node i (l.bound c.premise.constraints i))
    simpa using rest

theorem batch (h : Remembers notes s) (l : Lattice) (batch : List Candidate) :
    Remembers (Note.ofBatch l batch ++ notes) (batch.foldl (Schedule.handOut l) s) := by
  rw [Note.ofBatch]
  induction batch generalizing notes s with
  | nil => exact h
  | cons c batch ih =>
    have rest := ih (h.handOut l c)
    simpa using rest

end Remembers

/-- A schedule remembers the last bounds that it was told. -/
theorem Told.remembers (h : Told notes s) : Remembers notes s := by
  induction h with
  | start =>
    constructor
    · intro n
      exact Std.HashMap.contains_empty
    · intro n i b
      simp [isSettled, Schedule.start, Note.last]
  | handOut _ l some ih =>
    rw [nextBatch_of_ne_nil some]
    exact ih.batch l _
  | endLevel _ l none ih =>
    rw [nextBatch_of_nil none]
    exact .cleared _ _
  | settle _ node index bound ih => exact ih.settle node index bound
  | rewind _ le ih =>
    rw [Schedule.rewind, if_pos le]
    exact .cleared _ _
  | stay _ lt ih =>
    rw [Schedule.rewind, if_neg (Nat.not_le_of_lt lt)]
    exact ih

end Schedule

end MatchingDependencies
