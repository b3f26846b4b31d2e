import MatchingDependencies.Ascending
import MatchingDependencies.Bisection
import MatchingDependencies.Measure
import MatchingDependencies.ScoreRow
import MatchingDependencies.Table
import MatchingDependencies.ValueClass

/-!
# Comparing two columns

Before a search, the measure of a column match compares every distinct value
of the left column with every distinct value of the right column. Missing
values are like each other only if the search wants it so, empty values are
like each other, and what lies below the cutoff counts as zero.

The comparison keeps all similarities, the thresholds that occur, the least
similarity, and for every left value the records that reach each threshold.
-/

set_option autoImplicit false

namespace MatchingDependencies

structure Comparison.Row where
  /-- Similarities by right value. -/
  similarities : ScoreRow
  /-- The thresholds in increasing order, each with the right records that
  reach it. These are found when they are first asked for, since all of them
  together can take much more room than the similarities. -/
  index : Array (Score × Thunk (List Nat))
  deriving Inhabited

structure Comparison where
  /-- The nonzero similarities that occur, in increasing order. -/
  boundaries : Array Score
  /-- The least similarity of any two values. -/
  lowest : Score
  /-- The rows by left value. -/
  rows : Array Comparison.Row
  deriving Inhabited

namespace Comparison

/-! ## One left value -/

/-- The right values by class, made ready to be compared with one left value
after the other. Only the regular ones reach a measure. -/
structure RightValues where
  nulls : List Nat
  empties : List Nat
  regular : List Nat
  /-- The regular values themselves. -/
  comparands : List Comparand

def RightValues.ofTexts (texts : List String) : RightValues :=
  let ofClass := fun c => texts.zipIdx.filter fun (t, _) => ValueClass.of t = c
  { nulls := (ofClass .null).map (·.2)
    empties := (ofClass .empty).map (·.2)
    regular := (ofClass .regular).map (·.2)
    comparands := (ofClass .regular).map fun (t, _) => Comparand.ofText t }

abbrev Entries := List (Nat × Score)

/-- The score of two regular values counts if it is positive and reaches the
cutoff. -/
def counts (cutoff s : Score) : Bool := 0 < s && cutoff ≤ s

def counted (cutoff : Score) : (regular : List Nat) → List Score → Entries
  | right::regular, s::scores =>
    if counts cutoff s then (right, s) :: counted cutoff regular scores
    else counted cutoff regular scores
  | _, _ => []

def firstOutside (measure : Measure) (left : String) :
    (rights : List Comparand) → List Score → Except RequestError Unit
  | right::rights, s::scores =>
    if s.inUnit then firstOutside measure left rights scores
    else .error (.similarityOutOfRange measure.name left right.text s)
  | _, _ => .ok ()

def checkScores (measure : Measure) (left : String) (rights : List Comparand)
    (scores : List Score) : Except RequestError Unit :=
  if measure.checksRange then firstOutside measure left rights scores else .ok ()

def entries (measure : Measure) (nullEqualsNull : Bool) (rights : RightValues) (left : String) :
    Except RequestError Entries :=
  match ValueClass.of left with
  | .null => .ok (if nullEqualsNull then rights.nulls.map fun right => (right, 1) else [])
  | .empty => .ok (rights.empties.map fun right => (right, 1))
  | .regular =>
    let scores := measure.row (Comparand.ofText left) rights.comparands
    (checkScores measure left rights.comparands scores).map fun _ =>
      counted measure.cutoff rights.regular scores

/-- The least similarity of a left value with any right value. What has no entry
counts as zero. -/
def leastOf (count : Nat) (entries : Entries) : Score :=
  if entries.length < count then 0 else (entries.map (·.2)).foldl Score.smaller 1

namespace Row

/-- The order in which values are gathered: from the most similar one down, and by
number among equals. -/
def comesFirst (a b : Nat × Score) : Bool :=
  b.2.rank < a.2.rank || b.2.rank = a.2.rank && a.1 ≤ b.1

/-- Gathers the records of one value after the other. Behind the last value of a
similarity, what is gathered so far are the records that reach it, and the index
gets another entry in front. -/
def sweep (clusters : Array (List Nat)) :
    Entries → (gathered : List (List Nat)) → (index : List (Score × Thunk (List Nat))) →
      List (Score × Thunk (List Nat))
  | [], _, index => index
  | (right, s)::entries, gathered, index =>
    let gathered := clusters.getD right [] :: gathered
    if entries.head?.any (·.2.same s) then sweep clusters entries gathered index
    else sweep clusters entries gathered
      ((s, Thunk.mk fun _ => mergeAll Nat.ble gathered.reverse) :: index)

def ofEntries (clusters : Array (List Nat)) (entries : Entries) : Row :=
  { similarities := ScoreRow.ofEntries clusters.size entries
    index := (sweep clusters (entries.mergeSort comesFirst) [] []).toArray }

def similarity (row : Row) (right : Nat) : Score := row.similarities.score right

def isAtLeast (threshold : Score) (entry : Score × Thunk (List Nat)) : Bool :=
  threshold.rank ≤ entry.1.rank

/-- The right records that reach a threshold: those of the first threshold that
occurs and is not lower. -/
def recordsFor? (row : Row) (threshold : Score) : Option (List Nat) :=
  row.index[bisect (isAtLeast threshold) row.index]?.map (·.2.get)

theorem recordsFor?_eq_find? (row : Row) (threshold : Score)
    (stays : StaysTrue (isAtLeast threshold) row.index) :
    row.recordsFor? threshold = (row.index.find? (isAtLeast threshold)).map (·.2.get) := by
  rw [recordsFor?, getElem?_bisect stays]

end Row

/-! ## All left values -/

def compareLeft (measure : Measure) (nullEqualsNull : Bool) (rights : RightValues)
    (clusters : Array (List Nat)) (left : String) : Except RequestError (Score × Row) :=
  (entries measure nullEqualsNull rights left).map fun entries =>
    (leastOf clusters.size entries, Row.ofEntries clusters entries)

def ofRows (rows : List (Score × Row)) : Comparison :=
  { boundaries := (ascending (rows.flatMap fun (_, row) =>
      row.similarities.entries.map (·.2))).toArray
    lowest := (rows.map (·.1)).foldl Score.smaller 1
    rows := (rows.map (·.2)).toArray }

def build (measure : Measure) (nullEqualsNull : Bool) (left right : Column) :
    Except RequestError Comparison :=
  let rights := RightValues.ofTexts right.values.toList
  (left.values.toList.mapM (compareLeft measure nullEqualsNull rights right.clusters)).map ofRows

def row (c : Comparison) (left : Nat) : Row := c.rows.getD left default

def similarity (c : Comparison) (left right : Nat) : Score :=
  (c.row left).similarity right

def recordsFor? (c : Comparison) (left : Nat) (threshold : Score) : Option (List Nat) :=
  (c.row left).recordsFor? threshold

def nextBoundary? (c : Comparison) (bound : Score) : Option Score :=
  c.boundaries[bisect (fun b => !(b ≤ bound)) c.boundaries]?

theorem nextBoundary?_eq_find? (c : Comparison) (bound : Score)
    (stays : StaysTrue (fun b => !(b ≤ bound)) c.boundaries) :
    c.nextBoundary? bound = c.boundaries.find? fun b => !(b ≤ bound) :=
  getElem?_bisect stays

def previousBoundary? (c : Comparison) (bound : Score) : Option Score :=
  match bisect (fun b => !(b < bound)) c.boundaries with
  | 0 => none
  | place+1 => c.boundaries[place]?

end Comparison

end MatchingDependencies
