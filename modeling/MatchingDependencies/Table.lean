import MatchingDependencies.Numbering
import MatchingDependencies.RowSource

/-!
# Tables

A loaded table replaces every value by its number in its column. The values of
a column are numbered in the order of their first appearance. A column also
knows, for each value, the increasing list of the records that hold it.

Rows with another number of fields than there are columns are skipped and
counted.
-/

set_option autoImplicit false

namespace MatchingDependencies

open Delimited (Row)

abbrev Record := Array Nat

structure Column where
  values : Array String
  clusters : Array (List Nat)
  deriving Inhabited

namespace Column

def size (c : Column) : Nat := c.clusters.size

def value (c : Column) (id : Nat) : String := c.values.getD id ""

end Column

structure Table where
  name : String
  columnNames : Row
  columns : Array Column
  records : Array Record
  skipped : Nat

namespace Table

def column (t : Table) (index : Nat) : Column := t.columns.getD index default

def recordCount (t : Table) : Nat := t.records.size

def decode (t : Table) (record : Record) : Row :=
  record.toList.zipWith (fun id c => c.value id) t.columns.toList

end Table

/-! ## Loading -/

structure Column.Draft where
  numbering : Numbering
  clusters : Array (Array Nat)

namespace Column.Draft

def empty : Draft := ⟨.empty, #[]⟩

def opened (clusters : Array (Array Nat)) (id : Nat) : Array (Array Nat) :=
  if id = clusters.size then clusters.push #[] else clusters

def enter (record : Nat) (value : String) : Draft → Nat × Draft
  | ⟨numbering, clusters⟩ =>
    let numbering := numbering.add value
    let id := numbering.number value
    (id, ⟨numbering, (opened clusters id).modify id (·.push record)⟩)

def column (c : Draft) : Column := ⟨c.numbering.values, c.clusters.map Array.toList⟩

end Column.Draft

structure Table.Draft where
  columns : List Column.Draft
  records : Array Record
  skipped : Nat

namespace Table.Draft

def empty (width : Nat) : Draft := ⟨List.replicate width .empty, #[], 0⟩

def add (width : Nat) (row : Row) : Draft → Draft
  | ⟨columns, records, skipped⟩ =>
    if row.length = width then
      let entered := row.zipWith (fun value c => c.enter records.size value) columns
      ⟨entered.map (·.2), records.push (entered.map (·.1)).toArray, skipped⟩
    else ⟨columns, records, skipped + 1⟩

def addAll (width : Nat) (t : Draft) (source : RowSource) : Except InputError Draft :=
  match _h : source.next with
  | (.ok (some row), s) => addAll width (t.add width row) s
  | (.ok none, _) => .ok t
  | (.error e, _) => .error e
termination_by source.remaining
decreasing_by
  have := source.next_remaining row (by rw [_h])
  rw [_h] at this
  exact this

def table (t : Draft) (name : String) (columnNames : Row) : Table :=
  { name, columnNames
    columns := (t.columns.map Column.Draft.column).toArray
    records := t.records
    skipped := t.skipped }

end Table.Draft

/-- Loads every row that a source still hands out. There must be one at least
that fits the columns. -/
def Table.load (source : RowSource) : Except InputError Table :=
  match source.hasNext with
  | (.error e, _) => .error e
  | (.ok false, _) => .error (.emptyTable source.name)
  | (.ok true, s) =>
    match (Draft.empty source.columns.length).addAll source.columns.length s with
    | .error e => .error e
    | .ok t =>
      if t.records.isEmpty then .error (.emptyTable source.name)
      else .ok (t.table source.name source.columns)

structure Tables where
  left : Table
  other : Option Table

namespace Tables

def right (t : Tables) : Table := t.other.getD t.left

def isSingle (t : Tables) : Bool := t.other.isNone

/-- A table that is compared with itself counts once. -/
def skipped (t : Tables) : Nat :=
  t.left.skipped + (t.other.map Table.skipped).getD 0

end Tables

end MatchingDependencies
