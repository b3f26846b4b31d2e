import MatchingDependencies.Traversal
import Std.Data.HashSet

/-!
# Inference

Inference refutes claims with single record pairs: first with those that
validation recommends as counterexamples, then with all pairs, one left record
after the other. Only the profile of a pair matters, and every profile is
applied once. Inference pauses when it looks at many profiles without finding
claims to refute, and becomes more patient with each pause.
-/

set_option autoImplicit false

namespace MatchingDependencies

structure Inference where
  /-- The counterexamples to look at, the next one first. -/
  stack : List Counterexample
  /-- The profiles that have been applied. -/
  applied : Std.HashSet (List UInt64)
  /-- The left record to look at when nothing is ahead. -/
  nextLeft : Nat
  /-- The profiles of the current left record that are still to be looked at. -/
  ahead : List Scores
  /-- How many profiles per refuted claim are worth while. -/
  patience : Nat
  profileCount : Nat
  refutedCount : Nat

namespace Inference

def start : Inference := ⟨[], ∅, 0, [], 100, 0, 0⟩

def leastProfiles : Nat := 5

def isExhausted (i : Inference) (d : Dataset) : Bool := d.leftCount ≤ i.nextLeft && i.ahead.isEmpty

/-! ## Refuting claims -/

/-- Withdraws a bound. What the pair still reaches is claimed instead if it is
more than the premise demands and no generalization claims as much. -/
def weaken (l : Lattice) (premise : Path) (index : Nat) (reached : Score) : Lattice :=
  let l := (l.setBound premise index 0).markChanged premise
  if premise.score index < reached then
    match l.isImplied premise reached index with
    | (true, l) => l
    | (false, l) => l.setBound premise index reached
  else l

structure Reach where
  index : Nat
  reached : Score
  bound : Score

/-- Corrects one claim of a premise that a pair satisfies, if the pair falls
short of it. The old bound is claimed for the least specializations that
exclude the pair, given by the thresholds that it fails. -/
def refute (q : Setting) (failed premise : Path) (state : Lattice × Nat) (r : Reach) :
    Lattice × Nat :=
  let (l, count) := state
  if r.bound ≤ r.reached then (l, count)
  else
    let l := failed.foldl (fun l (column, threshold) =>
      if Traversal.mayClaim q column threshold r.index r.bound then
        (l.addIfMinimalSupported (premise.set column threshold) r.bound r.index).2
      else l) (weaken l premise r.index r.reached)
    (l, count+1)

def refutePremise (q : Setting) (profile : Scores) (failed : Path) (state : Lattice × Nat)
    (premise : Path) : Lattice × Nat :=
  let bounds := ((state.1.find? premise).map Node.bounds).getD #[]
  let reaches := profile.zipIdx.map fun (s, i) => (⟨i, s, bounds.getD i 0⟩ : Reach)
  reaches.foldl (refute q failed premise) state

def refuteAll (q : Setting) (l : Lattice) (profile : Scores) : Lattice × Nat :=
  let failed := Traversal.nextThresholds q.data profile
  ((l.violated profile).map fun (premise, _) => premise.constraints).foldl
    (refutePremise q profile failed) (l, 0)

def apply (q : Setting) (i : Inference) (l : Lattice) (profile : Scores) :
    Nat × Inference × Lattice :=
  let (l, count) := refuteAll q l profile
  (count, { i with profileCount := i.profileCount+1, refutedCount := i.refutedCount+count }, l)

/-! ## Rounds -/

structure Round where
  profiles : Nat
  refuted : Nat

def Round.isUnproductive (r : Round) (patience : Nat) : Bool :=
  leastProfiles ≤ r.profiles && patience * max r.refuted 1 < r.profiles

structure Turn where
  inference : Inference
  lattice : Lattice
  round : Round

/-- Looks at a profile unless it has been applied before. The answer says
whether to go on. -/
def check (q : Setting) (t : Turn) (profile : Scores) : Bool × Turn :=
  if t.inference.applied.contains profile.ranks then (true, t)
  else
    let i := { t.inference with applied := t.inference.applied.insert profile.ranks }
    let (count, i, lattice) := apply q i t.lattice profile
    let round : Round := ⟨t.round.profiles+1, t.round.refuted+count⟩
    if round.isUnproductive i.patience then
      (false, ⟨{ i with patience := 2*i.patience }, lattice, round⟩)
    else (true, ⟨i, lattice, round⟩)

def checkStack (q : Setting) : List Counterexample → Turn → Bool × Turn
  | [], t => (true, { t with inference := { t.inference with stack := [] } })
  | c::stack, t =>
    match check q t (q.data.profile c.left c.right) with
    | (true, t) => checkStack q stack t
    | (false, t) => (false, { t with inference := { t.inference with stack } })

def checkAhead (q : Setting) : List Scores → Turn → Bool × Turn
  | [], t => (true, { t with inference := { t.inference with ahead := [] } })
  | profile::ahead, t =>
    match check q t profile with
    | (true, t) => checkAhead q ahead t
    | (false, t) => (false, { t with inference := { t.inference with ahead } })

def checkRecords (q : Setting) : (left : Nat) → Turn → Bool × Turn
  | 0, t => (true, t)
  | left+1, t =>
    let record := t.inference.nextLeft
    let t := { t with inference := { t.inference with nextLeft := record+1 } }
    match checkAhead q (q.data.profilesOf record).reverse t with
    | (true, t) => checkRecords q left t
    | (false, t) => (false, t)

/-- Goes on where the last call stopped, after taking over the pending
counterexamples, the last of them first. The answer says whether there is
nothing left to look at. -/
def run (q : Setting) (i : Inference) (w : Workspace) : Bool × Inference × Workspace :=
  let stack := w.pending.toList.reverse ++ i.stack
  let answer := fun (result : Bool × Turn) =>
    (result.1, result.2.inference, (⟨result.2.lattice, ∅⟩ : Workspace))
  match checkStack q stack ⟨i, w.lattice, ⟨0, 0⟩⟩ with
  | (false, t) => answer (false, t)
  | (true, t) =>
    match checkAhead q t.inference.ahead t with
    | (false, t) => answer (false, t)
    | (true, t) => answer (checkRecords q (q.data.leftCount - t.inference.nextLeft) t)

end Inference

end MatchingDependencies
