import MatchingDependencies.Proofs.Comparison.Columns
import MatchingDependencies.Proofs.Path.Premise
import MatchingDependencies.Proofs.Table
import MatchingDependencies.Traversal

/-!
# The record pairs of a search

Whatever a search finds is about the profiles of all record pairs. The natural
thresholds of a column match are the nonzero similarities that occur among
them, and the support of a premise counts those that satisfy it.
-/

set_option autoImplicit false

namespace MatchingDependencies

open MatchingDependencies.Path (Allowed)

namespace Dataset

def pairs (d : Dataset) : List (Nat × Nat) :=
  (List.range d.leftCount).flatMap fun l => (List.range d.rightCount).map fun r => (l, r)

def pairProfile (d : Dataset) (pair : Nat × Nat) : Scores :=
  d.profile (d.leftRecord pair.1) (d.rightRecord pair.2)

def pairProfiles (d : Dataset) : List Scores := d.pairs.map d.pairProfile

def support (d : Dataset) (premise : Scores) : Nat :=
  d.pairProfiles.countP fun v => v.satisfies premise

def Natural (d : Dataset) : Allowed := fun c t => t ∈ (d.comparison c).boundaries

/-- The tables are loaded ones, and all their columns were compared. -/
structure Sound (d : Dataset) : Prop where
  left : d.tables.left.Sound
  right : d.tables.right.Sound
  columns : ∀ i, i < d.width → (d.columnMatch i).left < d.tables.left.columns.size ∧
    (d.columnMatch i).right < d.tables.right.columns.size
  comparisons : ∀ i, i < d.width →
    (d.comparison i).Sound (d.tables.left.column (d.columnMatch i).left).size
      (d.tables.right.column (d.columnMatch i).right).clusters

variable {d : Dataset}

theorem lt_of_checkColumns {t : Table} {columns : List Nat} (h : checkColumns t columns = .ok ()) :
    ∀ c ∈ columns, c < t.columns.size := by
  rw [checkColumns] at h
  split at h
  · nomatch h
  · next none =>
    intro c hc
    have := List.find?_eq_none.mp none c hc
    simpa using this

theorem exists_comparison {tables : Tables} {columnMatches : List (Nat × Nat × Measure)}
    {nullEqualsNull : Bool} (h : build tables columnMatches nullEqualsNull = .ok d) :
    d.tables = tables ∧ d.width = columnMatches.length ∧
      ∀ i, i < d.width → ∃ left right measure c, columnMatches[i]? = some (left, right, measure) ∧
        left < tables.left.columns.size ∧ right < tables.right.columns.size ∧
        Comparison.build measure nullEqualsNull (tables.left.column left)
          (tables.right.column right) = .ok c ∧ d.columnMatch i = ⟨left, right, c⟩ := by
  rw [build] at h
  cases checkedLeft : checkColumns tables.left (columnMatches.map (·.1)) with
  | error e => simp [checkedLeft, bind, Except.bind] at h
  | ok _ =>
    cases checkedRight : checkColumns tables.right (columnMatches.map (·.2.1)) with
    | error e => simp [checkedLeft, checkedRight, bind, Except.bind] at h
    | ok _ =>
      simp only [checkedLeft, checkedRight, bind, Except.bind] at h
      split at h
      · nomatch h
      · next compared all =>
        obtain rfl := Except.ok.inj h
        obtain ⟨length, row⟩ := exists_of_mapM_eq_ok all
        refine ⟨rfl, by simpa [width] using length, fun i hi => ?_⟩
        have inside : i < columnMatches.length := by simpa [width, length] using hi
        obtain ⟨⟨left, right, measure⟩, asked⟩ : ∃ m, columnMatches[i]? = some m :=
          ⟨_, List.getElem?_eq_getElem inside⟩
        have mem := List.mem_of_getElem? asked
        obtain ⟨_, found, made⟩ := row i _ asked
        obtain ⟨c, built, rfl⟩ := exists_of_map_eq_ok made
        refine ⟨left, right, measure, c, asked, ?_, ?_, built, ?_⟩
        · exact lt_of_checkColumns checkedLeft _ (List.mem_map_of_mem mem)
        · exact lt_of_checkColumns checkedRight _ (List.mem_map_of_mem (f := fun m => m.2.1) mem)
        · rw [columnMatch, Array.getD_eq_getD_getElem?, List.getElem?_toArray, found]
          rfl

theorem sound_of_build {tables : Tables} (loaded : tables.Loaded)
    {columnMatches : List (Nat × Nat × Measure)} {nullEqualsNull : Bool}
    (h : build tables columnMatches nullEqualsNull = .ok d) : d.Sound := by
  obtain ⟨rfl, -, all⟩ := exists_comparison h
  refine ⟨loaded.sound_left, loaded.sound_right, fun i hi => ?_, fun i hi => ?_⟩
  · obtain ⟨left, right, measure, c, -, hleft, hright, -, eq⟩ := all i hi
    rw [eq]
    exact ⟨hleft, hright⟩
  · obtain ⟨left, right, measure, c, -, hleft, hright, built, eq⟩ := all i hi
    have sound := Comparison.sound_of_build (loaded.sound_right.values right hright) built
    rw [loaded.sound_left.values left hleft] at sound
    rwa [comparison, eq]

/-! ## Profiles -/

@[simp] theorem length_profile (d : Dataset) (left right : Record) :
    (d.profile left right).length = d.width := by
  simp [profile, width]

theorem score_profile (d : Dataset) (left right : Record) {i : Nat} (hi : i < d.width) :
    (d.profile left right).score i = d.similarity i left right := by
  rw [Scores.score_eq_getD, List.getD_eq_getElem?_getD, profile, List.getElem?_map,
    Array.getElem?_toList, similarity, columnMatch, Array.getD_eq_getD_getElem?,
    Array.getElem?_eq_getElem hi]
  rfl

theorem mem_pairs_iff {pair : Nat × Nat} :
    pair ∈ d.pairs ↔ pair.1 < d.leftCount ∧ pair.2 < d.rightCount := by
  obtain ⟨l, r⟩ := pair
  simp [pairs]

theorem mem_pairProfiles_iff {v : Scores} :
    v ∈ d.pairProfiles ↔ ∃ l r, l < d.leftCount ∧ r < d.rightCount ∧ d.pairProfile (l, r) = v := by
  rw [pairProfiles, List.mem_map]
  constructor
  · rintro ⟨⟨l, r⟩, h, rfl⟩
    exact ⟨l, r, (mem_pairs_iff.mp h).1, (mem_pairs_iff.mp h).2, rfl⟩
  · rintro ⟨l, r, hl, hr, rfl⟩
    exact ⟨(l, r), mem_pairs_iff.mpr ⟨hl, hr⟩, rfl⟩

theorem length_of_mem_pairProfiles {v : Scores} (hv : v ∈ d.pairProfiles) :
    v.length = d.width := by
  obtain ⟨l, r, -, -, rfl⟩ := mem_pairProfiles_iff.mp hv
  exact length_profile ..

@[simp] theorem length_pairProfiles (d : Dataset) : d.pairProfiles.length = d.totalPairs := by
  rw [pairProfiles, List.length_map, pairs, List.length_flatMap]
  simp [totalPairs]

theorem natural_within (d : Dataset) : d.Natural.Within d.width := by
  intro c t ht
  by_cases hc : c < d.width
  · exact hc
  · have none : (d.comparison c).boundaries = #[] := by
      rw [comparison, columnMatch, Array.getD_eq_getD_getElem?,
        Array.getElem?_eq_none (by simpa [width] using hc)]
      rfl
    rw [Natural, none] at ht
    simp at ht

theorem natural_self (d : Dataset) : ∀ c t, d.Natural c t → d.Natural c t := fun _ _ h => h

theorem natural_positive {tables : Tables} {columnMatches : List (Nat × Nat × Measure)}
    {nullEqualsNull : Bool} (h : build tables columnMatches nullEqualsNull = .ok d) :
    d.Natural.Positive := by
  obtain ⟨-, -, all⟩ := exists_comparison h
  intro c t ht
  obtain ⟨left, right, measure, comparison, -, -, -, built, eq⟩ :=
    all c (d.natural_within c t ht)
  have mem : t ∈ (d.columnMatch c).comparison.boundaries := ht
  rw [eq] at mem
  exact Comparison.boundaries_positive built t mem

theorem mem_nextThresholds (d : Dataset) (v : Scores) (c : Nat) (t : Score) :
    (c, t) ∈ Traversal.nextThresholds d v ↔
      c < v.length ∧ (d.comparison c).nextBoundary? (v.score c) = some t := by
  rw [Traversal.nextThresholds, List.mem_filterMap]
  constructor
  · rintro ⟨⟨s, m⟩, hs, eq⟩
    obtain ⟨u, found, eq⟩ := Option.map_eq_some_iff.mp eq
    obtain ⟨rfl, rfl⟩ := Prod.mk.inj eq
    rw [List.mem_zipIdx_iff_getElem?] at hs
    refine ⟨(List.getElem?_eq_some_iff.mp hs).1, ?_⟩
    rwa [Scores.score_eq_getD, List.getD_eq_getElem?_getD, hs]
  · rintro ⟨hc, next⟩
    refine ⟨(v.score c, c), ?_, congrArg (Option.map fun t => (c, t)) next⟩
    rw [List.mem_zipIdx_iff_getElem?, List.getElem?_eq_getElem hc, Scores.score_eq_getElem hc]

theorem natural_of_next {v : Scores} {x : Nat × Score}
    (next : x ∈ Traversal.nextThresholds d v) : d.Natural x.1 x.2 :=
  Array.mem_of_getElem? ((d.mem_nextThresholds v x.1 x.2).mp next).2

namespace Sound

variable (hd : d.Sound)

include hd

theorem exists_pair {i l r : Nat} (hi : i < d.width)
    (hl : l < (d.tables.left.column (d.columnMatch i).left).size)
    (hr : r < (d.tables.right.column (d.columnMatch i).right).clusters.size) :
    ∃ v ∈ d.pairProfiles, v.score i = (d.comparison i).similarity l r := by
  obtain ⟨left, hleft, eqLeft⟩ := hd.left.occurs _ (hd.columns i hi).1 l hl
  obtain ⟨right, hright, eqRight⟩ := hd.right.occurs _ (hd.columns i hi).2 r hr
  refine ⟨_, mem_pairProfiles_iff.mpr ⟨left, right, hleft, hright, rfl⟩, ?_⟩
  rw [pairProfile, d.score_profile _ _ hi]
  exact congrArg₂ (d.comparison i).similarity eqLeft eqRight

theorem exists_values {i : Nat} (hi : i < d.width) {v : Scores} (hv : v ∈ d.pairProfiles) :
    ∃ l r, l < (d.tables.left.column (d.columnMatch i).left).size ∧
      r < (d.tables.right.column (d.columnMatch i).right).clusters.size ∧
      v.score i = (d.comparison i).similarity l r := by
  obtain ⟨left, right, hleft, hright, rfl⟩ := mem_pairProfiles_iff.mp hv
  refine ⟨_, _, hd.left.value_lt left hleft _ (hd.columns i hi).1,
    hd.right.value_lt right hright _ (hd.columns i hi).2, ?_⟩
  rw [pairProfile, d.score_profile _ _ hi]
  rfl

theorem score_canonical (left right : Record) (i : Nat) :
    (d.profile left right).score i = 0 ∨ ((d.profile left right).score i).IsPositive := by
  by_cases hi : i < d.width
  · rw [d.score_profile left right hi]
    exact (hd.comparisons i hi).canonical _ _
  · exact .inl (Scores.score_of_le (by simp; omega))

theorem profile_numbered (left right : Record) : (d.profile left right).Numbered := by
  intro s hs
  obtain ⟨i, hi, rfl⟩ := List.getElem_of_mem hs
  rw [← Scores.score_eq_getElem hi]
  exact Score.isNonneg_of_canonical (hd.score_canonical left right i)

theorem numbered_of_mem {v : Scores} (hv : v ∈ d.pairProfiles) : v.Numbered := by
  obtain ⟨l, r, -, -, rfl⟩ := mem_pairProfiles_iff.mp hv
  exact hd.profile_numbered _ _

theorem satisfies_iff_reaches {v premise : Scores} (length : premise.length = d.width)
    (hv : v ∈ d.pairProfiles) : v.satisfies premise = true ↔ v.Reaches premise.constraints := by
  rw [(hd.numbered_of_mem hv).satisfies_iff
    (length.trans (d.length_of_mem_pairProfiles hv).symm)]
  exact forall_congr' fun c => by rw [Scores.demand_constraints]

/-! ## Natural thresholds -/

/-- Natural thresholds are the nonzero similarities of record pairs. -/
theorem natural_iff {c : Nat} {t : Score} :
    d.Natural c t ↔ c < d.width ∧ t.IsPositive ∧ ∃ v ∈ d.pairProfiles, v.score c = t := by
  constructor
  · intro ht
    have hc := d.natural_within c t ht
    obtain ⟨positive, l, r, hl, hr, rfl⟩ := ((hd.comparisons c hc).mem_boundaries_iff t).mp ht
    exact ⟨hc, positive, hd.exists_pair hc hl hr⟩
  · rintro ⟨hc, positive, v, hv, rfl⟩
    obtain ⟨l, r, hl, hr, eq⟩ := hd.exists_values hc hv
    exact ((hd.comparisons c hc).mem_boundaries_iff _).mpr ⟨positive, l, r, hl, hr, eq.symm⟩

theorem natural_positive : d.Natural.Positive := fun _ _ ht => (hd.natural_iff.mp ht).2.1

theorem mem_nextThresholds_iff {v : Scores} (len : v.length = d.width) (numbered : v.Numbered)
    (c : Nat) (t : Score) :
    (c, t) ∈ Traversal.nextThresholds d v ↔ d.Natural c t ∧ v.demand c < t.height ∧
      ∀ s, d.Natural c s → v.demand c < s.height → t.height ≤ s.height := by
  rw [mem_nextThresholds, len]
  constructor
  · rintro ⟨hc, next⟩
    exact ((hd.comparisons c hc).nextBoundary?_eq_some_iff (numbered.demand_lt c) t).mp next
  · intro h
    have hc := d.natural_within c t h.1
    exact ⟨hc, ((hd.comparisons c hc).nextBoundary?_eq_some_iff (numbered.demand_lt c) t).mpr h⟩

theorem exists_next {v : Scores} (len : v.length = d.width) (numbered : v.Numbered) {c : Nat}
    {s : Score}
    (hs : d.Natural c s) (above : v.demand c < s.height) :
    ∃ t, (c, t) ∈ Traversal.nextThresholds d v := by
  have hc := d.natural_within c s hs
  obtain ⟨t, ht⟩ := (hd.comparisons c hc).exists_nextBoundary (numbered.demand_lt c) hs above
  have next := ((hd.comparisons c hc).nextBoundary?_eq_some_iff (numbered.demand_lt c) t).mp ht
  exact ⟨t, (hd.mem_nextThresholds_iff len numbered c t).mpr next⟩

/-! ## The lowest similarity -/

theorem lowest_le {i : Nat} (hi : i < d.width) {v : Scores} (hv : v ∈ d.pairProfiles) :
    (d.comparison i).lowest.height ≤ v.demand i := by
  obtain ⟨l, r, hl, hr, eq⟩ := hd.exists_values hi hv
  rw [Scores.demand, eq]
  exact (hd.comparisons i hi).lowest_le l r hl hr

theorem lowest_attained {i : Nat} (hi : i < d.width) :
    (∃ v ∈ d.pairProfiles, (d.comparison i).lowest.height = v.demand i) ∨
      (d.comparison i).lowest.height = Score.unitHeight := by
  refine (hd.comparisons i hi).lowest_attained.imp_left ?_
  rintro ⟨l, r, hl, hr, eq⟩
  obtain ⟨w, hw, same⟩ := hd.exists_pair hi hl hr
  exact ⟨w, hw, by rw [eq, Scores.demand, same]⟩

end Sound

end Dataset

end MatchingDependencies
