import MatchingDependencies.Indices
import MatchingDependencies.Trie

/-!
# Picking the candidates of a batch

Validating a bound of one premise tells something about every specialization
of the premise. So a batch asks for each column match only at the most general
premises: a candidate that is offered drops the column matches that an accepted
generalization covers, and takes its own away from accepted specializations.

The accepted candidates are kept in order. A trie holds, in the slot of the node
of a premise, the place of the candidate that was accepted for the premise. One
walk through the trie goes to the generalizations of a premise and another one
to its specializations. A candidate that has lost everything keeps its place.
-/

set_option autoImplicit false

namespace MatchingDependencies

structure Candidate where
  premise : Scores
  node : Nat
  indices : Indices
  deriving DecidableEq, Inhabited

namespace Candidate

def path (c : Candidate) : Path := c.premise.constraints

def without (indices : Indices) (c : Candidate) : Candidate :=
  { c with indices := c.indices.diff indices }

def joined (indices : Indices) (c : Candidate) : Candidate :=
  { c with indices := c.indices.union indices }

end Candidate

structure Picker where
  /-- The slot of the empty premise. -/
  root : Option Nat
  branches : Branches (Option Nat)
  accepted : Array Candidate
  deriving Inhabited

namespace Picker

def empty : Picker := ⟨none, .none, #[]⟩

def slot (p : Picker) (path : Path) : Option Nat := (p.branches.find? path p.root).join

/-! ## What generalizations cover -/

def drop (accepted : Array Candidate) (slot : Option Nat) (left : Indices) : Indices :=
  match slot with
  | none => left
  | some place => left.diff (accepted.getD place default).indices

/-- Drops what is asked for at the nodes whose constraints are all met, until
nothing is left. -/
def excludeBelow (accepted : Array Candidate) (meets : Nat → Score → Bool) :
    Branches (Option Nat) → Indices → Indices
  | .none, left => left
  | .edge c t slot below after, left =>
    if left.isEmpty then left
    else if meets c t then
      excludeBelow accepted meets after
        (excludeBelow accepted meets below (drop accepted slot left))
    else excludeBelow accepted meets after left

def exclude (p : Picker) (premise : Scores) (indices : Indices) : Indices :=
  excludeBelow p.accepted premise.constraints.meets p.branches (drop p.accepted p.root indices)

/-! ## What specializations lose -/

def take (indices : Indices) (accepted : Array Candidate) (slot : Option Nat) :
    Array Candidate :=
  match slot with
  | none => accepted
  | some place => accepted.modify place (·.without indices)

/-- At a node where nothing is left of the path, its own candidate loses too. -/
def takeAtEnd (indices : Indices) (path : Path) (slot : Option Nat) (accepted : Array Candidate) :
    Array Candidate :=
  if path.isEmpty then take indices accepted slot else accepted

/-- Follows the edges that can lead to specializations of what is left of a path:
any edge on a column before the first constraint, and edges on its column that
demand at least as much. Where nothing is left it follows every edge. -/
def narrowBelow (indices : Indices) :
    Path → Branches (Option Nat) → Array Candidate → Array Candidate
  | _, .none, accepted => accepted
  | [], .edge _ _ slot below after, accepted =>
    narrowBelow indices [] after (narrowBelow indices [] below (take indices accepted slot))
  | (column, threshold)::path, .edge c t slot below after, accepted =>
    if c < column then
      narrowBelow indices ((column, threshold)::path) after
        (narrowBelow indices ((column, threshold)::path) below accepted)
    else if c = column then
      if threshold.rank ≤ t.rank then
        narrowBelow indices ((column, threshold)::path) after
          (narrowBelow indices path below (takeAtEnd indices path slot accepted))
      else narrowBelow indices ((column, threshold)::path) after accepted
    else accepted

def narrow (p : Picker) (premise : Scores) (indices : Indices) : Picker :=
  let path := premise.constraints
  let accepted := takeAtEnd indices path p.root p.accepted
  { p with accepted := narrowBelow indices path p.branches accepted }

/-! ## Accepting candidates -/

def fill (p : Picker) (path : Path) (place : Nat) : Picker :=
  match path with
  | [] => { p with root := some place }
  | path => { p with branches := p.branches.place (fun _ => none) (fun _ => some place) 0 path }

/-- Accepts a candidate without any check. An accepted candidate for the same
premise takes over its column matches. -/
def add (p : Picker) (c : Candidate) : Picker :=
  match p.slot c.path with
  | some place => { p with accepted := p.accepted.modify place (·.joined c.indices) }
  | none =>
    let p := p.fill c.path p.accepted.size
    { p with accepted := p.accepted.push c }

def offer (p : Picker) (c : Candidate) : Picker :=
  match p.exclude c.premise c.indices with
  | [] => p
  | indices => (p.narrow c.premise indices).add { c with indices }

def selected (p : Picker) : List Candidate :=
  p.accepted.toList.filter fun c => !c.indices.isEmpty

def takeAll (p : Picker) : List Candidate × Picker := (p.selected, empty)

end Picker

end MatchingDependencies
