import MatchingDependencies.Ascending
import MatchingDependencies.Counting
import MatchingDependencies.Table

/-!
# Kinds of records

Records that hold the same values are of one kind. What a search asks about
records depends on their values alone, so it asks about kinds, and records are
only counted, or listed at the end.
-/

set_option autoImplicit false

namespace MatchingDependencies

structure Kind where
  record : Record
  /-- The records of the kind, in increasing order. -/
  members : Array Nat
  deriving Inhabited

namespace Kind

def recordCount (kinds : List Kind) : Nat := sumOver (·.members.size) kinds

def records (kinds : List Kind) : List (Nat × Record) :=
  mergeAll (fun a b => a.1 ≤ b.1) (kinds.map fun k => k.members.toList.map fun r => (r, k.record))

end Kind

namespace Table

def kinds (t : Table) : List Kind :=
  (groupBy (fun r => t.records.getD r #[]) (List.range t.recordCount)).map
    fun (record, members) => ⟨record, members.toArray⟩

def kindClusters (t : Table) : Array (Array (List Kind)) :=
  let kinds := t.kinds
  t.columns.mapIdx fun i column =>
    byNumber column.size (kinds.map fun k => (k.record.getD i 0, k))

end Table

end MatchingDependencies
