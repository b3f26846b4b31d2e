import MatchingDependencies.Traversal.StepBound
import MatchingDependencies.Validation
import Std.Data.TreeSet

/-!
# Traversal

Traversal validates the claims of the lattice batch by batch. A claim that the
data refute is lowered to the bound they support, and the old bound is claimed
for the specializations of the premise instead. A change at a level that was
passed before sends the traversal back to that level.
-/

set_option autoImplicit false

namespace MatchingDependencies

structure Setting where
  data : Dataset
  minSupport : Nat
  disjoint : Bool

/-- What traversal and inference share: the lattice, and the counterexamples
that inference has not taken over yet. -/
structure Workspace where
  lattice : Lattice
  pending : Std.TreeSet Counterexample

structure Traversal where
  schedule : Schedule
  validations : Nat
  batches : Nat

inductive TraversalStep where
  | finished
  | levelEnded
  | batchValidated
  deriving DecidableEq

namespace Workspace

def withPending (w : Workspace) (more : List Counterexample) : Workspace :=
  { w with pending := w.pending.insertMany more }

end Workspace

namespace Traversal

def start : Traversal := ⟨Schedule.start, 0, 0⟩

def level (t : Traversal) : Nat := t.schedule.level

/-- The least threshold above a vector in each column match that has one. For a
premise these are its least specializations, and for a profile the least
thresholds that it fails. -/
def nextThresholds (d : Dataset) (v : Scores) : Path :=
  v.zipIdx.filterMap fun (s, m) => ((d.comparison m).nextBoundary? s).map fun t => (m, t)

/-- A claim about the column match that was specialized must be allowed, and
must say more than the new threshold. -/
def mayClaim (q : Setting) (column : Nat) (threshold : Score) (index : Nat) (bound : Score) :
    Bool :=
  if column = index then !q.disjoint && threshold < bound else true

def specialize (q : Setting) (corrections : List Correction) (general : Path) (l : Lattice)
    (specialization : Nat × Score) : Lattice :=
  let (column, threshold) := specialization
  let path := general.set column threshold
  if l.isUnsupported path then l
  else
    corrections.foldl (fun l c =>
      if mayClaim q column threshold c.index c.oldBound then
        (l.addIfMinimal path c.oldBound c.index).2
      else l) l

def correct (q : Setting) (l : Lattice) (c : Candidate) (v : Validation) : Lattice :=
  let path := c.premise.constraints
  let l := v.corrections.foldl (fun l k => l.setBound path k.index k.newBound) l
  if v.isUnsupported then l.markUnsupported path
  else (nextThresholds q.data c.premise).foldl (specialize q v.corrections path) l

def settle (s : Schedule) (c : Candidate) (v : Validation) : Schedule :=
  v.corrections.foldl (fun s k => s.settle c.node k.index k.newBound) s

/-- Goes back if there was a change, and validates the next batch. All
candidates of the batch are validated before the first one is corrected. -/
def step (q : Setting) (t : Traversal) (w : Workspace) : TraversalStep × Traversal × Workspace :=
  let (changed, lattice) := w.lattice.takeLowestChanged
  let schedule := match changed with
    | some level => t.schedule.rewind level
    | none => t.schedule
  let w := { w with lattice }
  if !schedule.levelsLeft lattice then (.finished, { t with schedule }, w)
  else
    match schedule.nextBatch lattice with
    | ([], schedule) => (.levelEnded, { t with schedule }, w)
    | (batch, schedule) =>
      let results := batch.map fun c => (c, Validation.run q.data q.minSupport lattice c)
      let schedule := results.foldl (fun s (c, v) => settle s c v) schedule
      let lattice := results.foldl (fun l (c, v) => correct q l c v) lattice
      let found := results.flatMap fun (_, v) => v.findings.flatMap Finding.distinct
      (.batchValidated,
        { schedule, validations := t.validations + batch.length, batches := t.batches + 1 },
        { w with lattice }.withPending found)

/-- What a step answers to a traversal of one batch or of all levels: whether
every level is done, or nothing if there are more steps to take. -/
def answer? (all : Bool) : TraversalStep → Option Bool
  | .finished => some true
  | .levelEnded => none
  | .batchValidated => if all then none else some false

def runSteps (q : Setting) (all : Bool) :
    (steps : Nat) → Traversal → Workspace → Option Bool × Traversal × Workspace
  | 0, t, w => (none, t, w)
  | n+1, t, w =>
    match step q t w with
    | (event, t, w) =>
      match answer? all event with
      | some answer => (some answer, t, w)
      | none => runSteps q all n t w

/-- Steps until there is an answer. The steps are taken in rounds, and every
round is twice as long as the one before. There is no answer if the number of
rounds does not suffice. -/
def runRounds (q : Setting) (all : Bool) :
    (rounds steps : Nat) → Traversal → Workspace → Option (Bool × Traversal × Workspace)
  | 0, _, _, _ => none
  | n+1, steps, t, w =>
    match runSteps q all steps t w with
    | (some answer, t, w) => some (answer, t, w)
    | (none, t, w) => runRounds q all n (2*steps) t w

theorem runSteps_add (q : Setting) (all : Bool) (m n : Nat) (t : Traversal) (w : Workspace) :
    runSteps q all (m+n) t w =
      match runSteps q all m t w with
      | (some answer, t, w) => (some answer, t, w)
      | (none, t, w) => runSteps q all n t w := by
  induction m generalizing t w with
  | zero => simp [runSteps]
  | succ m ih =>
    rw [Nat.succ_add, runSteps, runSteps]
    generalize step q t w = next
    obtain ⟨event, t, w⟩ := next
    cases h : answer? all event with
    | none => simpa [h] using ih t w
    | some answer => simp [h]

theorem runRounds_eq_runSteps (q : Setting) (all : Bool) (rounds steps : Nat) (t : Traversal)
    (w : Workspace) :
    runRounds q all rounds steps t w =
      match runSteps q all (steps * (Nat.pow 2 rounds - 1)) t w with
      | (answer, t, w) => answer.map fun answer => (answer, t, w) := by
  induction rounds generalizing steps t w with
  | zero => simp [runRounds, runSteps]
  | succ n ih =>
    have total : steps * (Nat.pow 2 (n+1) - 1) = steps + 2*steps * (Nat.pow 2 n - 1) := by
      have positive : 0 < Nat.pow 2 n := Nat.two_pow_pos n
      rw [show Nat.pow 2 (n+1) = Nat.pow 2 n * 2 from rfl,
        show Nat.pow 2 n * 2 - 1 = 1 + 2*(Nat.pow 2 n - 1) by omega, Nat.mul_add, Nat.mul_one,
        Nat.mul_left_comm, Nat.mul_assoc]
    rw [total, runSteps_add, runRounds]
    generalize runSteps q all steps t w = next
    obtain ⟨answer, t, w⟩ := next
    cases answer with
    | none => exact ih (2*steps) t w
    | some answer => rfl

def run (q : Setting) (all : Bool) (t : Traversal) (w : Workspace) :
    Option (Bool × Traversal × Workspace) :=
  runRounds q all (enoughDoublings q.data w.lattice) 1 t w

end Traversal

end MatchingDependencies
