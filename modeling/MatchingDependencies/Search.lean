import MatchingDependencies.Inference

/-!
# The search

Inference and traversal take turns on one lattice. Traversal goes through all
levels once inference has nothing left to look at, and the search ends when
both say in the same round that they are done.
-/

set_option autoImplicit false

namespace MatchingDependencies

structure Search where
  workspace : Workspace
  traversal : Traversal
  inference : Inference

namespace Search

def start (d : Dataset) : Search :=
  ⟨⟨Lattice.new d.width, ∅⟩, Traversal.start, Inference.start⟩

def lattice (s : Search) : Lattice := s.workspace.lattice

def recommend (s : Search) (c : Counterexample) : Bool × Search :=
  (!s.workspace.pending.contains c, { s with workspace := s.workspace.withPending [c] })

def apply (q : Setting) (s : Search) (profile : Scores) : Nat × Search :=
  let (count, inference, lattice) := s.inference.apply q s.lattice profile
  (count, { s with inference, workspace := { s.workspace with lattice } })

def infer (q : Setting) (s : Search) : Bool × Search :=
  let (answer, inference, workspace) := s.inference.run q s.workspace
  (answer, { s with inference, workspace })

def traverse (q : Setting) (all : Bool) (s : Search) : Option (Bool × Search) :=
  (s.traversal.run q all s.workspace).map fun (answer, traversal, workspace) =>
    (answer, { s with traversal, workspace })

/-- Rounds of inference and traversal until both are done. There is no answer
if the number of rounds does not suffice. -/
def runFor (q : Setting) : (rounds : Nat) → Search → Option Search
  | 0, _ => none
  | n+1, s =>
    let (inferred, s) := s.infer q
    match s.traverse q inferred with
    | none => none
    | some (traversed, s) => if inferred && traversed then some s else runFor q n s

/-- Every round before the last applies a profile that was not applied before,
and there are at most as many profiles as record pairs. -/
def enoughRounds (d : Dataset) : Nat := d.totalPairs + 2

def run (q : Setting) : Option Search := runFor q (enoughRounds q.data) (start q.data)

end Search

end MatchingDependencies
