import MatchingDependencies.RowSource

/-!
# What a source delivers

`Delivers` follows the calls that ask for the next row up to the one that finds
none. A call that only asks whether there is another row takes none away.
-/

set_option autoImplicit false

namespace MatchingDependencies

open Delimited (Row)

namespace RowSource

/-- The rows that a source hands out one after the other, without a failure,
until there are no more. -/
inductive Delivers : RowSource → List Row → Prop
  | ends {s t : RowSource} (asked : s.next = (.ok none, t)) : Delivers s []
  | row {s t : RowSource} {r : Row} {rows : List Row} (asked : s.next = (.ok (some r), t))
      (others : Delivers t rows) : Delivers s (r::rows)

theorem delivers_listed (l : RowList) : Delivers (.listed l) l.left := by
  obtain ⟨name, columns, rows, left⟩ := l
  induction left with
  | nil => exact .ends rfl
  | cons r left ih => exact .row rfl ih

theorem Delivers.rest_eq {s : RowSource} {rows : List Row} (h : s.Delivers rows) :
    ∃ last, s.rest = (rows, none, last) := by
  induction h with
  | @ends s t asked =>
    refine ⟨t, ?_⟩
    rw [rest]
    split <;> simp_all
  | @row s t r rows asked _ ih =>
    obtain ⟨last, eq⟩ := ih
    refine ⟨last, ?_⟩
    rw [rest]
    split <;> simp_all

/-! ## Asking in advance -/

theorem hasNext_of_end {s t : RowSource} (asked : s.next = (.ok none, t)) :
    s.hasNext.1 = .ok false := by
  cases s with
  | listed l => cases left : l.left <;> simp_all [next, hasNext]
  | delimited d =>
    cases peeked : d.peeked <;> cases read : d.readRow <;>
      simp_all [next, hasNext, Delimited.Source.next, Delimited.Source.hasNext]

theorem hasNext_of_row {s t : RowSource} {r : Row} (asked : s.next = (.ok (some r), t)) :
    s.hasNext.1 = .ok true ∧ s.hasNext.2.next = s.next := by
  cases s with
  | listed l => cases left : l.left <;> simp_all [next, hasNext]
  | delimited d =>
    cases peeked : d.peeked with
    | some r => simp [next, hasNext, Delimited.Source.next, Delimited.Source.hasNext, peeked]
    | none =>
      rcases read : d.readRow with ⟨answer, e⟩
      have still : e.peeked = none := by
        rw [← peeked, ← d.readRow_peeked, read]
      have handed : d.next = (answer, e) := by rw [Delimited.Source.next, peeked, ← read]
      obtain rfl : answer = .ok (some r) := by
        rw [next, handed] at asked
        exact congrArg Prod.fst asked
      have kept : d.hasNext = (.ok true, { e with peeked := some r }) := by
        simp only [Delimited.Source.hasNext, peeked, read, Option.isSome_some]
      have again : Delimited.Source.next { e with peeked := some r } = (.ok (some r), e) := by
        simp only [Delimited.Source.next, ← still]
      simp only [hasNext, next, kept, handed, again, and_self]

theorem Delivers.hasNext_eq {s : RowSource} {rows : List Row} (h : s.Delivers rows) :
    s.hasNext.1 = .ok !rows.isEmpty ∧ (rows ≠ [] → s.hasNext.2.Delivers rows) := by
  cases h with
  | ends asked => exact ⟨hasNext_of_end asked, fun some => absurd rfl some⟩
  | row asked others =>
    obtain ⟨answer, same⟩ := hasNext_of_row asked
    exact ⟨answer, fun _ => .row (same.trans asked) others⟩

end RowSource

end MatchingDependencies
