import MatchingDependencies.PairGroup
import MatchingDependencies.Schedule

/-!
# Validation

To validate a premise is to look at every record pair that satisfies it and to
find, for each column match that is asked for, the least similarity among
these pairs. The pairs are visited group by group.

A pair that falls short of a claimed bound is a counterexample. Once a bound
has collapsed to zero, counterexamples to it are collected only until there
are enough of them, and validation ends early when no bound has anything left
to learn and the support is large enough.
-/

set_option autoImplicit false

namespace MatchingDependencies

structure Counterexample where
  left : Record
  right : Record
  deriving DecidableEq, Inhabited

instance : Ord Counterexample :=
  ⟨compareLex (compareOn Counterexample.left) (compareOn Counterexample.right)⟩

structure Finding where
  lefts : List Kind
  right : Record

namespace Finding

def counterexamples (f : Finding) : List Counterexample :=
  (Kind.records f.lefts).map fun (_, left) => ⟨left, f.right⟩

def distinct (f : Finding) : List Counterexample := f.lefts.map fun k => ⟨k.record, f.right⟩

end Finding

structure Correction where
  index : Nat
  oldBound : Score
  newBound : Score

structure Validation where
  findings : List Finding
  corrections : List Correction
  isUnsupported : Bool
  /-- The pairs that were counted before validation ended. -/
  support : Nat

/-! ## Bounds under validation -/

def enoughCounterexamples : Nat := 20

/-- A bound under validation. The floor is what the premise itself or a
generalization guarantees: a bound not above it is not worth a claim. -/
structure Probe where
  index : Nat
  oldBound : Score
  bound : Score
  floor : Score
  findings : Array Finding
  /-- The number of counterexamples that were found. -/
  found : Nat

/-- Left records that hold one value in a column match, and the comparison of
that value. -/
structure LeftPart where
  kinds : List Kind
  count : Nat
  row : Comparison.Row

def Dataset.leftParts (d : Dataset) (index : Nat) (kinds : List Kind) : List LeftPart :=
  let m := d.columnMatch index
  (groupBy (fun k => k.record.getD m.left 0) kinds).map fun (value, kinds) =>
    ⟨kinds, Kind.recordCount kinds, m.comparison.row value⟩

namespace Probe

def isSettled (p : Probe) : Bool := p.bound.isZero && enoughCounterexamples ≤ p.found

/-- The bound after a similarity was seen. A bound that is not above the floor
collapses to zero. -/
def boundAfter (p : Probe) (s : Score) : Score :=
  let bound := if s < p.bound then s else p.bound
  if bound ≤ p.floor then 0 else bound

def look (p : Probe) (lefts : LeftPart) (right : Record) (s : Score) : Probe :=
  if s < p.oldBound then
    { p with
      bound := p.boundAfter s
      findings := p.findings.push ⟨lefts.kinds, right⟩
      found := p.found + lefts.count }
  else if s < p.bound then { p with bound := p.boundAfter s }
  else p

/-- Looks at the pairs of some parts with right records, by left value and right
record, until the bound is settled. The right values stand in a column. -/
def lookAt (rights : Array Record) (column : Nat) (parts : List LeftPart) (similar : List Nat)
    (p : Probe) : Probe :=
  foldUntil isSettled (fun p lefts =>
    foldUntil isSettled (fun p r =>
      let right := rights.getD r #[]
      p.look lefts right (lefts.row.similarity (right.getD column 0))) similar p) parts p

def visit (d : Dataset) (g : PairGroup) (p : Probe) : Probe :=
  if p.isSettled then p
  else
    p.lookAt d.tables.right.records (d.columnMatch p.index).right (d.leftParts p.index g.lefts)
      g.rights

def correction? (p : Probe) : Option Correction :=
  if p.bound.same p.oldBound then none else some ⟨p.index, p.oldBound, p.bound⟩

end Probe

structure Survey where
  probes : List Probe
  support : Nat

namespace Survey

def visit (d : Dataset) (s : Survey) (g : PairGroup) : Survey :=
  ⟨s.probes.map (Probe.visit d g), s.support + g.pairCount⟩

/-- A survey that has seen a group is final once all bounds are settled and
enough pairs were counted. -/
def isFinal (minSupport : Nat) (s : Survey) : Bool :=
  s.probes.all Probe.isSettled && minSupport ≤ s.support && 0 < s.support

end Survey

namespace Validation

def counterexamples (v : Validation) : List Counterexample :=
  v.findings.flatMap Finding.counterexamples

def probe (premise inherited : Scores) (bounds : Array Score) (index : Nat) : Probe :=
  let old := bounds.getD index 0
  let floor := (premise.score index).larger (inherited.score index)
  { index, floor
    oldBound := old
    bound := if old ≤ floor then 0 else old
    findings := #[]
    found := 0 }

def ofEmptyPremise (d : Dataset) (minSupport : Nat) (bounds : Array Score)
    (indices : Indices) : Validation :=
  { findings := []
    corrections := indices.filterMap fun i =>
      let old := bounds.getD i 0
      let lowest := (d.comparison i).lowest.smaller old
      if lowest.same old then none else some ⟨i, old, lowest⟩
    isUnsupported := d.totalPairs < minSupport
    support := d.totalPairs }

def ofSurvey (minSupport : Nat) (s : Survey) : Validation :=
  { findings := s.probes.flatMap fun p => p.findings.toList
    corrections := s.probes.filterMap Probe.correction?
    isUnsupported := s.support < minSupport
    support := s.support }

def run (d : Dataset) (minSupport : Nat) (l : Lattice) (c : Candidate) : Validation :=
  let bounds := ((l.find? c.premise.constraints).map Node.bounds).getD #[]
  if c.premise.cardinality = 0 then ofEmptyPremise d minSupport bounds c.indices
  else
    let inherited := l.inheritedBounds c.premise
    let start : Survey := ⟨c.indices.map (probe c.premise inherited bounds), 0⟩
    ofSurvey minSupport
      (d.visitGroups c.premise (Survey.isFinal minSupport) (Survey.visit d) start)

end Validation

end MatchingDependencies
