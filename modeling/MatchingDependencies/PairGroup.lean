import MatchingDependencies.Ascending
import MatchingDependencies.Dataset
import MatchingDependencies.Path
import MatchingDependencies.Stopping

/-!
# Groups of record pairs

The record pairs that satisfy a premise are not looked at one by one. Left
records that hold the same values in the columns the premise looks at form a
group, and one look at the index tells which right records are similar enough
to all of the group. The left records of a group are given by their kinds.

Who visits the groups may stop early, so a group is made when its turn comes.
The main statement says that the groups visited are those of the list
`satisfyingGroups`.
-/

set_option autoImplicit false

namespace MatchingDependencies

/-- Kinds of left records with the right records that each left record is paired
with. -/
structure PairGroup where
  lefts : List Kind
  rights : List Nat

namespace PairGroup

def pairCount (g : PairGroup) : Nat := Kind.recordCount g.lefts * g.rights.length

end PairGroup

def commonRecords : List Nat → List Nat → List Nat
  | a::as, b::bs =>
    if a = b then a :: commonRecords as bs
    else if a < b then commonRecords as (b::bs)
    else commonRecords (a::as) bs
  | _, _ => []
termination_by as bs => as.length + bs.length

/-- The common members of increasing lists. The shortest come first, and once
nothing is left the others are not looked at. -/
def commonToAll (lists : List (List Nat)) : List Nat :=
  match lists.mergeSort fun as bs => as.length ≤ bs.length with
  | [] => []
  | records::rest => foldUntil List.isEmpty commonRecords rest records

/-- Constraints by the left columns they look at, in increasing order of columns.
Those on the first column stand apart, since its clusters are gone through one
after the other. -/
structure ColumnConstraints where
  first : Nat × Path
  others : List (Nat × Path)

namespace Dataset

def columnConstraints? (d : Dataset) (premise : Scores) : Option ColumnConstraints :=
  match groupBy (fun (m, _) => (d.columnMatch m).left) premise.constraints with
  | [] => none
  | first::others => some ⟨first, others⟩

def recordSets? (d : Dataset) (constraints : Path) (value : Nat) : Option (List (List Nat)) :=
  constraints.mapM fun (m, t) => (d.comparison m).recordsFor? value t

def keyGroups (columns : List Nat) (kinds : List Kind) : List (List Nat × List Kind) :=
  if columns.isEmpty then [([], kinds)]
  else groupBy (fun k => columns.map fun c => k.record.getD c 0) kinds

/-- The pairs of left records that have a key in the other columns. The right
records that meet the constraints on the first column are given. -/
def pairGroup? (d : Dataset) (others : List (Nat × Path)) (firstSets : List (List Nat))
    (group : List Nat × List Kind) : Option PairGroup :=
  let (key, lefts) := group
  let sets? := (others.zip key).mapM fun ((_, constraints), value) =>
    d.recordSets? constraints value
  match sets? with
  | none => none
  | some sets =>
    match commonToAll (firstSets ++ sets.flatten) with
    | [] => none
    | rights => some ⟨lefts, rights⟩

def leftClusters (d : Dataset) (column : Nat) : List (List Kind × Nat) :=
  (d.leftKinds.get.getD column #[]).toList.zipIdx

def groupsOfCluster (d : Dataset) (c : ColumnConstraints) (cluster : List Kind × Nat) :
    List PairGroup :=
  match d.recordSets? c.first.2 cluster.2 with
  | none => []
  | some sets =>
    (keyGroups (c.others.map (·.1)) cluster.1).filterMap (d.pairGroup? c.others sets)

def columnGroups (d : Dataset) (premise : Scores) : List PairGroup :=
  match d.columnConstraints? premise with
  | none => []
  | some c => (d.leftClusters c.first.1).flatMap (d.groupsOfCluster c)

def similarGroup? (d : Dataset) (constraint : Nat × Score) (cluster : List Kind × Nat) :
    Option PairGroup :=
  ((d.comparison constraint.1).recordsFor? cluster.2 constraint.2).map fun rights =>
    ⟨cluster.1, rights⟩

/-- The record pairs that satisfy a premise with at least one constraint. With
a single constraint the clusters of its left column are the groups. -/
def satisfyingGroups (d : Dataset) (premise : Scores) : List PairGroup :=
  match premise.constraints with
  | [constraint] =>
    (d.leftClusters (d.columnMatch constraint.1).left).filterMap (d.similarGroup? constraint)
  | _ => d.columnGroups premise

/-! ## Visits -/

variable {σ : Type}

/-- Visits the groups of one cluster. -/
@[specialize]
def visitCluster (d : Dataset) (c : ColumnConstraints) (isFinal : σ → Bool)
    (visit : σ → PairGroup → σ) (s : σ) (cluster : List Kind × Nat) : σ :=
  match d.recordSets? c.first.2 cluster.2 with
  | none => s
  | some sets =>
    foldUntil isFinal (stepFound (d.pairGroup? c.others sets) visit)
      (keyGroups (c.others.map (·.1)) cluster.1) s

theorem visitCluster_eq_foldUntil (d : Dataset) (c : ColumnConstraints) (isFinal : σ → Bool)
    (visit : σ → PairGroup → σ) (s : σ) (cluster : List Kind × Nat) :
    d.visitCluster c isFinal visit s cluster =
      foldUntil isFinal visit (d.groupsOfCluster c cluster) s := by
  rw [visitCluster, groupsOfCluster]
  cases d.recordSets? c.first.2 cluster.2 with
  | none => rfl
  | some sets => exact (foldUntil_filterMap ..).symm

/-- Visits the groups of several columns. -/
@[specialize]
def visitColumnGroups (d : Dataset) (premise : Scores) (isFinal : σ → Bool)
    (visit : σ → PairGroup → σ) (s : σ) : σ :=
  match d.columnConstraints? premise with
  | none => s
  | some c => foldUntil isFinal (d.visitCluster c isFinal visit) (d.leftClusters c.first.1) s

/-- Visits the groups that satisfy a premise until a state is final. -/
@[specialize]
def visitGroups (d : Dataset) (premise : Scores) (isFinal : σ → Bool)
    (visit : σ → PairGroup → σ) (s : σ) : σ :=
  match premise.constraints with
  | [constraint] =>
    foldUntil isFinal (stepFound (d.similarGroup? constraint) visit)
      (d.leftClusters (d.columnMatch constraint.1).left) s
  | _ => d.visitColumnGroups premise isFinal visit s

theorem visitColumnGroups_eq_foldUntil (d : Dataset) (premise : Scores) (isFinal : σ → Bool)
    (visit : σ → PairGroup → σ) (s : σ) :
    d.visitColumnGroups premise isFinal visit s =
      foldUntil isFinal visit (d.columnGroups premise) s := by
  rw [visitColumnGroups, columnGroups]
  cases d.columnConstraints? premise with
  | none => rfl
  | some c =>
    rw [foldUntil_flatMap]
    simp only [← visitCluster_eq_foldUntil]

theorem visitGroups_eq_foldUntil (d : Dataset) (premise : Scores) (isFinal : σ → Bool)
    (visit : σ → PairGroup → σ) (s : σ) :
    d.visitGroups premise isFinal visit s =
      foldUntil isFinal visit (d.satisfyingGroups premise) s := by
  rw [visitGroups, satisfyingGroups]
  split
  · exact (foldUntil_filterMap ..).symm
  · exact d.visitColumnGroups_eq_foldUntil premise isFinal visit s

end Dataset

end MatchingDependencies
