import MatchingDependencies.Proofs.Comparison.Reference
import MatchingDependencies.Proofs.Dataset.Pairs
import MatchingDependencies.Proofs.Discovery.Outcome

/-!
# Records compared by reference

Every value of a loaded column is the value of some record, so what is true of
all values of two columns is true of all record pairs. The similarities that
occur, the least of them, and the profiles of record pairs are those of the
reference similarity, which knows neither rows nor entries.
-/

set_option autoImplicit false

namespace MatchingDependencies

open MatchingDependencies.Discovery (namesakes namesakes_loaded)

def Tables.reference (t : Tables) (left right : Nat) (m : Measure) (nullEqualsNull : Bool)
    (a b : Nat) : Score :=
  m.reference nullEqualsNull (t.right.column right).values.toList
    ((t.left.column left).value (t.left.valueAt a left)) (t.right.valueAt b right)

/-- The comparison of two columns is that of the reference similarity. Its rows
hold what is positive, its boundaries are what the profiles of record pairs take
on, and its lowest similarity is the least one of all record pairs. -/
structure Tables.Compared (t : Tables) (left right : Nat) (m : Measure) (nullEqualsNull : Bool)
    (c : Comparison) : Prop where
  enters_iff : ∀ l r s, c.Enters l r s ↔
    l < (t.left.column left).size ∧ r < (t.right.column right).size ∧
      m.reference nullEqualsNull (t.right.column right).values.toList
        ((t.left.column left).value l) r = s ∧ 0 < s
  profiles : ∀ (columnMatches : List (Nat × Nat × Measure)) (d : Dataset) (i : Nat),
    Dataset.build t columnMatches nullEqualsNull = .ok d →
      columnMatches[i]? = some (left, right, m) → d.comparison i = c ∧
        (∀ a b, a < d.leftCount → b < d.rightCount →
          (d.pairProfile (a, b)).score i = t.reference left right m nullEqualsNull a b) ∧
        ∀ s, s ∈ c.boundaries ↔ s.isZero = false ∧ ∃ v ∈ d.pairProfiles, v.score i = s
  boundaries_increasing : c.boundaries.toList.Pairwise (· < ·)
  mem_boundaries_iff : ∀ s, s ∈ c.boundaries ↔ s.isZero = false ∧ ∃ a b,
    a < t.left.recordCount ∧ b < t.right.recordCount ∧
      t.reference left right m nullEqualsNull a b = s
  lowest_le : ∀ a b, a < t.left.recordCount → b < t.right.recordCount →
    c.lowest ≤ t.reference left right m nullEqualsNull a b
  lowest_attained : ∃ a b, a < t.left.recordCount ∧ b < t.right.recordCount ∧
    t.reference left right m nullEqualsNull a b = c.lowest

namespace Tables

section Columns

variable {t : Tables} (loaded : t.Loaded) {left right : Nat} (hl : left < t.left.columns.size)
  (hr : right < t.right.columns.size) {m : Measure} {nullEqualsNull : Bool} {c : Comparison}
  (built : Comparison.build m nullEqualsNull (t.left.column left) (t.right.column right) = .ok c)

include loaded hl hr built

theorem similarity_records {a : Nat} (ha : a < t.left.recordCount) (b : Nat) :
    c.similarity (t.left.valueAt a left) (t.right.valueAt b right) =
      t.reference left right m nullEqualsNull a b := by
  have size := loaded.sound_left.values left hl
  exact Comparison.similarity_of_build (loaded.sound_right.values right hr) built
    (size ▸ loaded.sound_left.value_lt a ha left hl) _

theorem mem_boundaries_iff (s : Score) : s ∈ c.boundaries ↔ s.isZero = false ∧ ∃ a b,
    a < t.left.recordCount ∧ b < t.right.recordCount ∧
      t.reference left right m nullEqualsNull a b = s := by
  have sound := Comparison.sound_of_build (loaded.sound_right.values right hr) built
  rw [sound.mem_boundaries_iff]
  constructor
  · rintro ⟨positive, l, r, hl', hr', rfl⟩
    rw [loaded.sound_left.values left hl] at hl'
    obtain ⟨a, ha, rfl⟩ := loaded.sound_left.occurs left hl l hl'
    obtain ⟨b, hb, rfl⟩ := loaded.sound_right.occurs right hr r hr'
    exact ⟨positive.ne_zero, a, b, ha, hb,
      (similarity_records loaded hl hr built ha b).symm⟩
  · rintro ⟨nonzero, a, b, ha, hb, rfl⟩
    rw [← similarity_records loaded hl hr built ha b] at nonzero ⊢
    refine ⟨sound.isPositive nonzero, _, _, ?_, ?_, rfl⟩
    · rw [loaded.sound_left.values left hl]
      exact loaded.sound_left.value_lt a ha left hl
    · exact loaded.sound_right.value_lt b hb right hr

theorem lowest_le {a b : Nat} (ha : a < t.left.recordCount) (hb : b < t.right.recordCount) :
    c.lowest ≤ t.reference left right m nullEqualsNull a b := by
  have sound := Comparison.sound_of_build (loaded.sound_right.values right hr) built
  have inside := loaded.sound_left.value_lt a ha left hl
  rw [← similarity_records loaded hl hr built ha b, Score.le_iff]
  refine ⟨sound.lowest_le _ _ ?_ (loaded.sound_right.value_lt b hb right hr),
    (Score.isNonneg_of_canonical (sound.canonical _ _)).2⟩
  rwa [loaded.sound_left.values left hl]

theorem lowest_attained
    (stays : ¬m.Strays (t.left.column left).values.toList (t.right.column right).values.toList) :
    ∃ a b, a < t.left.recordCount ∧ b < t.right.recordCount ∧
      t.reference left right m nullEqualsNull a b = c.lowest := by
  have size := loaded.sound_right.values right hr
  have sound := Comparison.sound_of_build size built
  obtain ⟨l, r, hl', hr', eq⟩ : ∃ l r, l < (t.left.column left).values.size ∧
      r < (t.right.column right).clusters.size ∧
        c.lowest.height = (c.similarity l r).height := by
    rcases sound.lowest_attained with attained | one
    · exact attained
    · -- All similarities are one at least, and none is more.
      have someLeft := loaded.sound_left.value_lt 0 loaded.sound_left.nonempty left hl
      have someRight := loaded.sound_right.value_lt 0 loaded.sound_right.nonempty right hr
      rw [← loaded.sound_left.values left hl] at someLeft
      have least := sound.lowest_le _ _ someLeft someRight
      have most : (c.similarity (t.left.valueAt 0 left) (t.right.valueAt 0 right)).inUnit = true := by
        rw [Comparison.similarity_of_build size built someLeft]
        exact Comparison.reference_inUnit stays someLeft _
      rw [Score.inUnit_iff] at most
      exact ⟨_, _, someLeft, someRight, by omega⟩
  rw [loaded.sound_left.values left hl] at hl'
  obtain ⟨a, ha, rfl⟩ := loaded.sound_left.occurs left hl l hl'
  obtain ⟨b, hb, rfl⟩ := loaded.sound_right.occurs right hr r hr'
  rw [similarity_records loaded hl hr built ha b] at eq
  exact ⟨a, b, ha, hb, (Measure.reference_plain _ _ _ _ _).ext
    (Comparison.lowest_plain_of_build size built) eq.symm
    (Score.isNonneg_of_inUnit sound.lowest_inUnit).2⟩

theorem profiles_of_build {columnMatches : List (Nat × Nat × Measure)} {d : Dataset} {i : Nat}
    (h : Dataset.build t columnMatches nullEqualsNull = .ok d)
    (found : columnMatches[i]? = some (left, right, m)) : d.comparison i = c ∧
      ∀ a b, a < d.leftCount → b < d.rightCount →
        (d.pairProfile (a, b)).score i = t.reference left right m nullEqualsNull a b := by
  obtain ⟨rfl, width, all⟩ := Dataset.exists_comparison h
  have hi : i < d.width := width ▸ (List.getElem?_eq_some_iff.mp found).1
  obtain ⟨left', right', m', c', found', -, -, built', eq⟩ := all i hi
  rw [found, Option.some.injEq, Prod.mk.injEq, Prod.mk.injEq] at found'
  obtain ⟨rfl, rfl, rfl⟩ := found'
  rw [built, Except.ok.injEq] at built'
  obtain rfl := built'
  refine ⟨by rw [Dataset.comparison, eq], fun a b ha _ => ?_⟩
  rw [Dataset.pairProfile, d.score_profile _ _ hi, Dataset.similarity, eq]
  exact similarity_records loaded hl hr built ha b

theorem compared_of_build
    (stays : ¬m.Strays (t.left.column left).values.toList (t.right.column right).values.toList) :
    t.Compared left right m nullEqualsNull c := by
  have size := loaded.sound_left.values left hl
  have size' := loaded.sound_right.values right hr
  have occurs := mem_boundaries_iff loaded hl hr built
  have sound := Comparison.sound_of_build size' built
  constructor
  · intro l r s
    rw [Comparison.enters_iff size' built, size, size']
  · intro columnMatches d i h found
    obtain ⟨eq, profiles⟩ := profiles_of_build loaded hl hr built h found
    refine ⟨eq, profiles, fun s => ?_⟩
    rw [occurs]
    refine and_congr_right fun _ => ?_
    obtain ⟨rfl, -⟩ := Dataset.exists_comparison h
    constructor
    · rintro ⟨a, b, ha, hb, rfl⟩
      exact ⟨_, Dataset.mem_pairProfiles_iff.mpr ⟨a, b, ha, hb, rfl⟩, profiles a b ha hb⟩
    · rintro ⟨v, hv, rfl⟩
      obtain ⟨a, b, ha, hb, rfl⟩ := Dataset.mem_pairProfiles_iff.mp hv
      exact ⟨a, b, ha, hb, (profiles a b ha hb).symm⟩
  · refine sound.sorted.imp_of_mem fun {s u} _ hu less => ?_
    have positive := ((sound.mem_boundaries_iff u).mp (Array.mem_toList_iff.mp hu)).1
    exact (Score.lt_iff s u).mpr ⟨less, positive.2⟩
  · exact occurs
  · exact fun a b ha hb => lowest_le loaded hl hr built ha hb
  · exact lowest_attained loaded hl hr built stays

end Columns

/-- Two columns of loaded tables are refused exactly if the measure checks the
range and says of some two regular values what is no similarity. If it says
similarities only, the comparison is that of the reference similarity. -/
theorem compared_by_reference {t : Tables} (loaded : t.Loaded) {left right : Nat}
    (hl : left < t.left.columns.size) (hr : right < t.right.columns.size) (m : Measure)
    (nullEqualsNull : Bool) :
    ((∃ e, Comparison.build m nullEqualsNull (t.left.column left) (t.right.column right) =
        .error e) ↔ m.checksRange = true ∧
          m.Strays (t.left.column left).values.toList (t.right.column right).values.toList) ∧
    (¬m.Strays (t.left.column left).values.toList (t.right.column right).values.toList →
      ∃ c, Comparison.build m nullEqualsNull (t.left.column left) (t.right.column right) = .ok c ∧
        t.Compared left right m nullEqualsNull c) := by
  refine ⟨Comparison.build_error_iff, fun stays => ?_⟩
  cases built : Comparison.build m nullEqualsNull (t.left.column left) (t.right.column right) with
  | error e => exact absurd (Comparison.build_error_iff.mp ⟨e, built⟩).2 stays
  | ok c => exact ⟨c, rfl, compared_of_build loaded hl hr built stays⟩

def halfAlike (left right : Comparand) : Score :=
  if left.text = right.text then 1 else ⟨0x3FE0000000000000⟩

def halfway : Measure := .pairwise "halfway" 0 true halfAlike

def undefined : Measure := .pairwise "undefined" 0 true fun _ _ => ⟨0x7FF8000000000000⟩

theorem halfway_stays (lefts rights : List String) : ¬halfway.Strays lefts rights := by
  rintro ⟨left, -, r, right, found, -, regular, stray⟩
  rw [halfway, Measure.answer_pairwise _ _ _ _ found regular, halfAlike] at stray
  split at stray <;> contradiction

theorem undefined_strays :
    undefined.Strays (namesakes.column 1).values.toList (namesakes.column 1).values.toList :=
  ⟨"Rome", by decide, 1, "Bern", rfl, by decide, by decide, by decide⟩

theorem compared_by_reference_namesakes :
    Tables.Loaded ⟨namesakes, none⟩ ∧ 1 < namesakes.columns.size ∧
      (∃ e, Comparison.build undefined true (namesakes.column 1) (namesakes.column 1) =
        .error e) ∧
      ¬halfway.Strays (namesakes.column 1).values.toList (namesakes.column 1).values.toList ∧
      (∃ c, Comparison.build halfway true (namesakes.column 1) (namesakes.column 1) = .ok c ∧
        Tables.Compared ⟨namesakes, none⟩ 1 1 halfway true c) ∧
      Tables.reference ⟨namesakes, none⟩ 1 1 halfway true 0 1 = ⟨0x3FE0000000000000⟩ := by
  have stays := halfway_stays (namesakes.column 1).values.toList
    (namesakes.column 1).values.toList
  exact ⟨namesakes_loaded, by decide,
    (compared_by_reference namesakes_loaded (by decide) (by decide) undefined true).1.mpr
      ⟨rfl, undefined_strays⟩, stays,
    (compared_by_reference namesakes_loaded (by decide) (by decide) halfway true).2 stays, rfl⟩

end Tables

end MatchingDependencies
