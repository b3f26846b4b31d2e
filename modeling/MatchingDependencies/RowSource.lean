import MatchingDependencies.Delimited.Source

/-!
# Sources of rows

Rows come from a list in memory or from delimited text. A source hands out its
rows one after the other and can be set back to its first row.
-/

set_option autoImplicit false

namespace MatchingDependencies

open Delimited (Row)

structure RowList where
  name : String
  columns : Row
  rows : List Row
  left : List Row

inductive RowSource where
  | listed (rows : RowList)
  | delimited (text : Delimited.Source)

namespace RowSource

def ofRows (name : String) (columns : Row) (rows : List Row) : RowSource :=
  .listed ⟨name, columns, rows, rows⟩

def name : RowSource → String
  | .listed l => l.name
  | .delimited d => d.name

def columns : RowSource → Row
  | .listed l => l.columns
  | .delimited d => d.columns

def sizeHint : RowSource → Option Nat
  | .listed l => some l.rows.length
  | .delimited _ => none

def hasNext : RowSource → Except InputError Bool × RowSource
  | .listed l => (.ok !l.left.isEmpty, .listed l)
  | .delimited d => let (answer, d) := d.hasNext; (answer, .delimited d)

def next : RowSource → Except InputError (Option Row) × RowSource
  | .listed l =>
    match l.left with
    | [] => (.ok none, .listed l)
    | row::left => (.ok (some row), .listed { l with left })
  | .delimited d => let (answer, d) := d.next; (answer, .delimited d)

def reset : RowSource → Except InputError Unit × RowSource
  | .listed l => (.ok (), .listed { l with left := l.rows })
  | .delimited d => let (answer, d) := d.reset; (answer, .delimited d)

def remaining : RowSource → Nat
  | .listed l => l.left.length
  | .delimited d => d.remaining + (if d.peeked.isSome then 1 else 0)

theorem next_remaining (s : RowSource) (row : Row) (h : s.next.1 = .ok (some row)) :
    s.next.2.remaining < s.remaining := by
  cases s with
  | listed l =>
    unfold next at h ⊢
    cases hl : l.left with
    | nil => simp [hl] at h
    | cons r left => simp [hl, remaining]
  | delimited d =>
    simp only [next, Delimited.Source.next] at h ⊢
    cases hp : d.peeked with
    | some r => simp [remaining, hp, Delimited.Source.remaining, Delimited.Source.unread]
    | none =>
      simp only [hp] at h ⊢
      have := Delimited.Source.readRow_remaining d row h
      have hk := Delimited.Source.readRow_peeked d
      simp only [remaining, hk, hp]
      simpa using this

/-- All rows up to the end of the source or to the first failure. -/
def rest (s : RowSource) : List Row × Option InputError × RowSource :=
  match _h : s.next with
  | (.ok (some row), t) => let (rows, error, last) := rest t; (row :: rows, error, last)
  | (.ok none, t) => ([], none, t)
  | (.error e, t) => ([], some e, t)
termination_by s.remaining
decreasing_by
  have := next_remaining s row (by rw [_h])
  rw [_h] at this
  exact this

def skip : Nat → RowSource → Except InputError RowSource
  | 0, s => .ok s
  | n+1, s =>
    match s.next with
    | (.ok _, s) => skip n s
    | (.error e, _) => .error e

end RowSource

end MatchingDependencies
