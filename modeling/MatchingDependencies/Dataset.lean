import MatchingDependencies.Ascending
import MatchingDependencies.Comparison
import MatchingDependencies.Kind
import MatchingDependencies.Scores

/-!
# The data of a search

A column match compares one left column with one right column. The data of a
search are the two tables together with the comparison of every column match.
-/

set_option autoImplicit false

namespace MatchingDependencies

structure ColumnMatch where
  left : Nat
  right : Nat
  comparison : Comparison
  deriving Inhabited

structure Dataset where
  tables : Tables
  columnMatches : Array ColumnMatch
  /-- The kinds of left records by column and value. These and the kinds of right
  records are found when they are first asked for. -/
  leftKinds : Thunk (Array (Array (List Kind))) := Thunk.mk fun _ => tables.left.kindClusters
  leftKinds_get : leftKinds.get = tables.left.kindClusters := by rfl
  rightKinds : Thunk (List Kind) := Thunk.mk fun _ => tables.right.kinds
  rightKinds_get : rightKinds.get = tables.right.kinds := by rfl

namespace Dataset

def width (d : Dataset) : Nat := d.columnMatches.size

def leftCount (d : Dataset) : Nat := d.tables.left.recordCount

def rightCount (d : Dataset) : Nat := d.tables.right.recordCount

def totalPairs (d : Dataset) : Nat := d.leftCount * d.rightCount

def leftRecord (d : Dataset) (r : Nat) : Record := d.tables.left.records.getD r #[]

def rightRecord (d : Dataset) (r : Nat) : Record := d.tables.right.records.getD r #[]

def columnMatch (d : Dataset) (i : Nat) : ColumnMatch := d.columnMatches.getD i default

def comparison (d : Dataset) (i : Nat) : Comparison := (d.columnMatch i).comparison

def similarity (d : Dataset) (i : Nat) (left right : Record) : Score :=
  let m := d.columnMatch i
  m.comparison.similarity (left.getD m.left 0) (right.getD m.right 0)

def profile (d : Dataset) (left right : Record) : Scores :=
  d.columnMatches.toList.map fun m =>
    m.comparison.similarity (left.getD m.left 0) (right.getD m.right 0)

/-- The distinct profiles of a left record with all right records, in
increasing order. -/
def profilesOf (d : Dataset) (left : Nat) : List Scores :=
  ascending (d.rightKinds.get.map fun k => d.profile (d.leftRecord left) k.record)

def checkColumns (table : Table) (columns : List Nat) : Except RequestError Unit :=
  match columns.find? fun c => table.columns.size ≤ c with
  | some c => .error (.columnIndexOutOfRange table.name c table.columns.size)
  | none => .ok ()

def build (tables : Tables) (columnMatches : List (Nat × Nat × Measure)) (nullEqualsNull : Bool) :
    Except RequestError Dataset := do
  checkColumns tables.left (columnMatches.map (·.1))
  checkColumns tables.right (columnMatches.map (·.2.1))
  let compared ← columnMatches.mapM fun (left, right, measure) =>
    let compared := Comparison.build measure nullEqualsNull (tables.left.column left)
      (tables.right.column right)
    compared.map fun comparison => (⟨left, right, comparison⟩ : ColumnMatch)
  return { tables, columnMatches := compared.toArray }

end Dataset

end MatchingDependencies
