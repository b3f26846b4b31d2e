import MatchingDependencies.Dependency

/-!
# Discovery

A discovery is configured with the column matches to compare, by the names of
their columns. Without any, the columns that have the same name in both tables
are matched by edit distance. The configuration is checked against the columns
before any row is read.
-/

set_option autoImplicit false

namespace MatchingDependencies

open Delimited (Row)

structure MatchRequest where
  left : String
  right : String
  measure : Measure

structure Configuration where
  nullEqualsNull : Bool := true
  minSupport : Nat := 0
  disjoint : Bool := true
  requests : List MatchRequest := []

structure ResolvedMatch where
  left : Nat
  right : Nat
  measure : Measure

structure Discovery where
  tables : Tables
  columnMatches : List ResolvedMatch
  nullEqualsNull : Bool
  minSupport : Nat
  disjoint : Bool

structure Outcome where
  dependencies : List Dependency
  validations : Nat
  batches : Nat
  levels : Nat
  profiles : Nat
  refuted : Nat
  visited : Nat
  nodes : Nat
  skipped : Nat

namespace Discovery

def defaultCutoff : Score := Score.ofDecimal ⟨7, -1⟩

def column (table : String) (columns : Row) (name : String) : Except RequestError Nat :=
  match columns.findIdx? (· == name) with
  | some i => .ok i
  | none => .error (.unknownColumn table name)

def sharedColumns (left right : Row) : List (Nat × Nat) :=
  left.zipIdx.filterMap fun (name, i) => (right.findIdx? (· == name)).map fun j => (i, j)

def resolve (c : Configuration) (leftTable : String) (leftColumns : Row) (rightTable : String)
    (rightColumns : Row) : Except RequestError (List ResolvedMatch) :=
  if c.requests.isEmpty then
    match sharedColumns leftColumns rightColumns with
    | [] => .error .noColumnMatches
    | shared => do
      let measure ← Measure.levenshtein defaultCutoff
      return shared.map fun (i, j) => ⟨i, j, measure⟩
  else
    c.requests.mapM fun r => do
      let i ← column leftTable leftColumns r.left
      let j ← column rightTable rightColumns r.right
      return ⟨i, j, r.measure⟩

def assemble (c : Configuration) (tables : Tables) (columnMatches : List ResolvedMatch) :
    Discovery :=
  { tables, columnMatches
    nullEqualsNull := c.nullEqualsNull
    minSupport := c.minSupport
    disjoint := c.disjoint }

def ofTables (c : Configuration) (t : Tables) : Except RequestError Discovery := do
  let columnMatches ←
    resolve c t.left.name t.left.columnNames t.right.name t.right.columnNames
  return assemble c t columnMatches

/-- Checks the configuration against the columns of the sources and then loads
the tables. -/
def load (c : Configuration) (left : RowSource) (right : Option RowSource) :
    Except Failure Discovery := do
  let other := right.getD left
  let columnMatches ←
    (resolve c left.name left.columns other.name other.columns).mapError Failure.request
  let leftTable ← (Table.load left).mapError Failure.input
  let rightTable ← (right.mapM Table.load).mapError Failure.input
  return assemble c ⟨leftTable, rightTable⟩ columnMatches

def labels (d : Discovery) : List MatchLabel :=
  d.columnMatches.map fun m =>
    { measure := m.measure.name
      leftTable := d.tables.left.name
      leftColumn := d.tables.left.columnNames.getD m.left ""
      rightTable := d.tables.right.name
      rightColumn := d.tables.right.columnNames.getD m.right "" }

def execute (d : Discovery) : Except RequestError (Option Outcome) := do
  let data ← Dataset.build d.tables
    (d.columnMatches.map fun m => (m.left, m.right, m.measure)) d.nullEqualsNull
  return (Search.run ⟨data, d.minSupport, d.disjoint⟩).map fun s =>
    { dependencies := Dependency.ofLattice data s.lattice
      validations := s.traversal.validations
      batches := s.traversal.batches
      levels := s.traversal.level
      profiles := s.inference.profileCount
      refuted := s.inference.refutedCount
      visited := s.lattice.claims.visited
      nodes := s.lattice.claims.size
      skipped := d.tables.skipped }

end Discovery

end MatchingDependencies
