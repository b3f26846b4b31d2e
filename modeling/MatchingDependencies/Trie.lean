import MatchingDependencies.Path

/-!
# Tries of premises

A premise is stored under its path, its constraints in increasing order of
columns. `Branches` are the edges that leave one node of a trie, in order of
column and threshold. Each edge carries the value of the node it leads to, the
branches of that node, and the edges that come after it. The node a path starts
from is not part of the branches.

The nodes of interest are those which a vector covers: it meets every
constraint of their paths. `reached` lists them in trie order: these are the
stored generalizations of a premise, and likewise the premises that a record
pair satisfies. `covered` lists only the values of these nodes, and
`insertionOrder` lists them in the order in which an insertion looks at them.
What a vector meets is asked at every edge, so it is given as a test on column
and threshold.
-/

set_option autoImplicit false

namespace MatchingDependencies

inductive Branches (α : Type) where
  | none
  | edge (column : Nat) (threshold : Score) (value : α) (below after : Branches α)
  deriving Inhabited

namespace Branches

variable {α : Type}

@[specialize] def reached (meets : Nat → Score → Bool) : Scores → Branches α → List (Scores × α)
  | _, none => []
  | premise, edge c t a below after =>
    (if meets c t then
      (premise.set c t, a) :: reached meets (premise.set c t) below
    else []) ++ reached meets premise after

def covered (meets : Nat → Score → Bool) : Branches α → List α
  | none => []
  | edge c t a below after =>
    (if meets c t then a :: covered meets below else []) ++ covered meets after

/-- What is left of a path behind an edge. Nothing is left of a path that does
not take the edge. -/
def behind (c : Nat) (t : Score) : Option Path → Option Path
  | some ((column, threshold)::path) =>
    if c = column && t.same threshold then some path else Option.none
  | _ => Option.none

/-- Like `covered`, but without the node at the end of a path. What is left of
the path is given as long as it is followed. -/
@[specialize] def coveredBeside (meets : Nat → Score → Bool) : Option Path → Branches α → List α
  | _, none => []
  | left, edge c t a below after =>
    (if meets c t then
      let further := behind c t left
      if further = some [] then coveredBeside meets further below
      else a :: coveredBeside meets further below
    else []) ++ coveredBeside meets left after

def coveredVia (via meets : Nat → Score → Bool) : Branches α → List α
  | none => []
  | edge c t a below after =>
    (if via c t && meets c t then a :: covered meets below else [])
      ++ coveredVia via meets after

def child? (column : Nat) (threshold : Score) : Branches α → Option (α × Branches α)
  | none => Option.none
  | edge c t a below after =>
    if c = column && t.rank == threshold.rank then some (a, below)
    else child? column threshold after

def find? : Path → α → Branches α → Option α
  | [], a, _ => some a
  | (c, t)::path, _, b =>
    match b.child? c t with
    | Option.none => Option.none
    | some (a, below) => find? path a below

def modify (f : α → α) : Path → Branches α → Branches α
  | _, none => none
  | [], b => b
  | (column, threshold)::path, edge c t a below after =>
    if c = column && t.rank == threshold.rank then
      match path with
      | [] => edge c t (f a) below after
      | _::_ => edge c t a (modify f path below) after
    else edge c t a below (modify f ((column, threshold)::path) after)

def depth : Path → Branches α → Nat
  | [], _ => 0
  | (c, t)::path, b =>
    match b.child? c t with
    | Option.none => 0
    | some (_, below) => depth path below + 1

/-- A branch for a path of which no node exists. The value of a new node is
made from its number, counted along the path; the last value is then given its
claim. -/
def chain (make : Nat → α) (final : α → α) : Nat → Path → Branches α → Branches α
  | _, [], after => after
  | number, [(c, t)], after => edge c t (final (make number)) none after
  | number, (c, t)::path, after =>
    edge c t (make number) (chain make final (number+1) path none) after

def precedes (column : Nat) (threshold : Score) (c : Nat) (t : Score) : Bool :=
  column < c || (column = c && threshold.rank < t.rank)

def place (make : Nat → α) (final : α → α) (number : Nat) : Path → Branches α → Branches α
  | path, none => chain make final number path none
  | [], b => b
  | (column, threshold)::path, edge c t a below after =>
    if precedes c t column threshold then
      edge c t a below (place make final number ((column, threshold)::path) after)
    else if precedes column threshold c t then
      chain make final number ((column, threshold)::path) (edge c t a below after)
    else
      match path with
      | [] => edge c t (final a) below after
      | _::_ => edge c t a (place make final number path below) after

/-- The order in which an insertion looks at the generalizations of a premise.
At each node of the path come the node itself, then the branches on later
columns, then the lower thresholds on the next column, then the path. -/
def insertionOrder (meets : Nat → Score → Bool) : Path → α → Branches α → List α
  | [], a, _ => [a]
  | (c, t)::path, a, b =>
    a :: (b.coveredVia (fun column _ => c < column) meets
      ++ b.coveredVia (fun column s => column = c && !s.same t) meets
      ++ match b.child? c t with
        | Option.none => []
        | some (a, below) => insertionOrder meets path a below)

/-- The nodes exactly `left` levels further down, in trie order, where each
edge takes as many levels as it costs. -/
def atLevel (cost : Nat → Score → Nat) : (left : Nat) → Scores → Branches α → List (Scores × α)
  | _, _, none => []
  | left, premise, edge c t a below after =>
    (if cost c t < left then atLevel cost (left - cost c t) (premise.set c t) below
    else if cost c t = left then [(premise.set c t, a)]
    else []) ++ atLevel cost left premise after

def nodes : Scores → Branches α → List (Scores × α)
  | _, none => []
  | premise, edge c t a below after =>
    (premise.set c t, a) :: nodes (premise.set c t) below ++ nodes premise after

end Branches

end MatchingDependencies
