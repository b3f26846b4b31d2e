import MatchingDependencies.Lattice
import MatchingDependencies.Schedule.Picker
import Std.Data.HashMap

/-!
# The order of validation

Claims are validated level by level, and within a level in batches. The
schedule remembers, for the current level, which bound it handed out for each
column match of each node, and hands a claim out again only if its bound has
changed since. A level is finished when no claim on it is left to hand out.
-/

set_option autoImplicit false

namespace MatchingDependencies

structure Schedule where
  level : Nat
  /-- The bounds handed out on this level, by node number and column match. -/
  handedOut : Std.HashMap Nat (Std.HashMap Nat Score)
  deriving Inhabited

namespace Schedule

def start : Schedule := ⟨0, ∅⟩

def levelsLeft (s : Schedule) (l : Lattice) : Bool := s.level ≤ l.maxLevel

def isSettled (s : Schedule) (node index : Nat) (bound : Score) : Bool :=
  match s.handedOut[node]? with
  | none => false
  | some bounds =>
    match bounds[index]? with
    | none => false
    | some b => b.same bound

def due (s : Schedule) (node : Node) : Indices :=
  (List.range node.bounds.size).filter fun i =>
    !(node.bound i).isZero && !s.isSettled node.number i (node.bound i)

def offers (s : Schedule) (l : Lattice) : List Candidate :=
  ((l.atLevel s.level).map fun (premise, node) => ⟨premise, node.number, s.due node⟩).filter
    fun c => !c.indices.isEmpty

def remember (s : Schedule) (node index : Nat) (bound : Score) : Schedule :=
  { s with handedOut := s.handedOut.insert node ((s.handedOut.getD node ∅).insert index bound) }

def handOut (l : Lattice) (s : Schedule) (c : Candidate) : Schedule :=
  let path := c.premise.constraints
  c.indices.foldl (fun s i => s.remember c.node i (l.bound path i)) s

/-- The next batch of the current level. An empty batch ends the level. -/
def nextBatch (s : Schedule) (l : Lattice) : List Candidate × Schedule :=
  match ((s.offers l).foldl Picker.offer .empty).takeAll.1 with
  | [] => ([], ⟨s.level+1, ∅⟩)
  | batch => (batch, batch.foldl (handOut l) s)

/-- Goes back to a level that has been reached and forgets what was handed
out, so that every claim from there on is validated again. -/
def rewind (s : Schedule) (level : Nat) : Schedule :=
  if level ≤ s.level then ⟨level, ∅⟩ else s

/-- Notes the bound a validation settled on. Nodes of which nothing was handed
out are left alone. -/
def settle (s : Schedule) (node index : Nat) (bound : Score) : Schedule :=
  if s.handedOut.contains node then s.remember node index bound else s

end Schedule

end MatchingDependencies
