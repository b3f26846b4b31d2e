import Mathlib.Data.List.Nodup
import MatchingDependencies.Proofs.Comparison.Sweep

/-!
# The row of a left value

The entries of a left value are positive numbers by increasing right value,
whatever the measure says. Its row gives back what was entered, and zero
elsewhere, and its index gives the records whose value reaches a threshold.
-/

set_option autoImplicit false

namespace MatchingDependencies

structure Ascending (count : Nat) (entries : List (Nat × Score)) : Prop where
  increasing : entries.Pairwise fun a b => a.1 < b.1
  below : ∀ e ∈ entries, e.1 < count
  positive : ∀ e ∈ entries, e.2.IsPositive

namespace Ascending

variable {count : Nat} {entries : List (Nat × Score)}

theorem lookup_eq_some_iff (h : entries.Pairwise fun a b => a.1 < b.1) (i : Nat) (s : Score) :
    entries.lookup i = some s ↔ (i, s) ∈ entries := by
  induction entries with
  | nil => simp
  | cons e entries ih =>
    obtain ⟨j, t⟩ := e
    obtain ⟨first, h⟩ := List.pairwise_cons.mp h
    rw [List.lookup_cons, List.mem_cons]
    by_cases same : i = j
    · subst same
      have absent : (i, s) ∉ entries := fun hs => Nat.lt_irrefl i (first _ hs)
      simp [absent, eq_comm]
    · have other : (i == j) = false := by simpa using same
      simp [same, other, ih h]

def scoreOf (entries : List (Nat × Score)) (i : Nat) : Score := (entries.lookup i).getD 0

theorem scoreOf_eq (h : Ascending count entries) (i : Nat) :
    (ScoreRow.ofEntries count entries).score i = scoreOf entries i :=
  ScoreRow.score_ofEntries count entries i h.increasing h.below

theorem scoreOf_cases (h : Ascending count entries) (i : Nat) :
    scoreOf entries i = 0 ∨ i < count ∧ (i, scoreOf entries i) ∈ entries := by
  rw [scoreOf]
  cases found : entries.lookup i with
  | none => exact .inl rfl
  | some s =>
    have mem := (lookup_eq_some_iff h.increasing i s).mp found
    exact .inr ⟨h.below _ mem, mem⟩

theorem scoreOf_mem (h : Ascending count entries) {e : Nat × Score} (he : e ∈ entries) :
    scoreOf entries e.1 = e.2 := by
  rw [scoreOf, (lookup_eq_some_iff h.increasing e.1 e.2).mpr he]
  rfl

theorem canonical (h : Ascending count entries) (i : Nat) :
    scoreOf entries i = 0 ∨ (scoreOf entries i).IsPositive := by
  rcases h.scoreOf_cases i with zero | ⟨-, mem⟩
  · exact .inl zero
  · exact .inr (h.positive _ mem)

theorem isNonneg (h : Ascending count entries) (i : Nat) : (scoreOf entries i).IsNonneg :=
  Score.isNonneg_of_canonical (h.canonical i)

theorem mem_of_le (h : Ascending count entries) {t : Score} (ht : 0 < t.height) {i : Nat}
    (le : t.height ≤ (scoreOf entries i).height) :
    i < count ∧ (i, scoreOf entries i) ∈ entries := by
  rcases h.scoreOf_cases i with zero | mem
  · rw [zero, Score.height_zero] at le
    omega
  · exact mem

end Ascending

def Clustered (clusters : Array (List Nat)) (records : Nat) (value : Nat → Nat) : Prop :=
  ∀ v, v < clusters.size → clusters[v]? = some ((List.range records).filter fun r => value r = v)

namespace Comparison.Row

open Ascending (scoreOf)

variable {clusters : Array (List Nat)} {entries : List (Nat × Score)}

theorem entered_of_mem_foldl {scores : Array Score} {s : Score}
    (hs : s ∈ entries.foldl ScoreRow.setEntry scores) : s ∈ scores ∨ ∃ e ∈ entries, e.2 = s := by
  induction entries generalizing scores with
  | nil => exact .inl hs
  | cons e entries ih =>
    rcases ih hs with hs | ⟨e', he', same⟩
    · rcases Array.mem_or_eq_of_mem_setIfInBounds hs with hs | rfl
      · exact .inl hs
      · exact .inr ⟨e, List.mem_cons_self, rfl⟩
    · exact .inr ⟨e', List.mem_cons_of_mem _ he', same⟩

theorem entered_of_mem_entries {e : Nat × Score}
    (he : e ∈ (ofEntries clusters entries).similarities.entries) : ∃ e' ∈ entries, e'.2 = e.2 := by
  change e ∈ (ScoreRow.ofEntries clusters.size entries).entries at he
  rw [ScoreRow.ofEntries] at he
  split at he
  · obtain ⟨he, nonzero⟩ := List.mem_filter.mp he
    obtain ⟨⟨s, i⟩, found, rfl⟩ := List.mem_map.mp he
    have mem :=
      Array.mem_toList_iff.mp (List.mem_of_getElem? (List.mem_zipIdx_iff_getElem?.mp found))
    rcases entered_of_mem_foldl mem with zero | entered
    · obtain rfl : s = 0 := (Array.mem_replicate.mp zero).2
      exact absurd nonzero (by decide : ¬(!(0 : Score).isZero) = true)
    · exact entered
  · exact ⟨e, he, rfl⟩

theorem mem_entries_ofEntries (h : Ascending clusters.size entries) (r : Nat) (s : Score) :
    (r, s) ∈ (ofEntries clusters entries).similarities.entries ↔
      scoreOf entries r = s ∧ s.IsPositive := by
  have score := h.scoreOf_eq r
  change (r, s) ∈ (ScoreRow.ofEntries clusters.size entries).entries ↔ _
  rw [ScoreRow.ofEntries] at score ⊢
  split
  · next dense =>
    rw [if_pos dense, ScoreRow.score, Array.getD_eq_getD_getElem?] at score
    rw [ScoreRow.entries, List.mem_filter, List.mem_map]
    constructor
    · rintro ⟨⟨⟨t, i⟩, found, same⟩, nonzero⟩
      obtain ⟨rfl, rfl⟩ := Prod.mk.inj same
      rw [List.mem_zipIdx_iff_getElem?, Array.getElem?_toList] at found
      rw [found] at score
      change t = scoreOf entries i at score
      subst score
      rcases h.canonical i with zero | positive
      · simp only [zero] at nonzero
        contradiction
      · exact ⟨rfl, positive⟩
    · rintro ⟨rfl, positive⟩
      refine ⟨⟨(scoreOf entries r, r), ?_, rfl⟩, by rw [positive.ne_zero]; rfl⟩
      rw [List.mem_zipIdx_iff_getElem?, Array.getElem?_toList]
      cases found : (entries.foldl ScoreRow.setEntry (Array.replicate clusters.size 0))[r]? with
      | none =>
        rw [found, Option.getD_none] at score
        rw [← score] at positive
        exact absurd positive.ne_zero (by decide)
      | some t => rw [← score, found, Option.getD_some]
  · rw [ScoreRow.entries]
    constructor
    · exact fun mem => ⟨h.scoreOf_mem mem, h.positive _ mem⟩
    · rintro ⟨rfl, positive⟩
      exact (h.mem_of_le positive.1 (Int.le_refl _)).2

theorem similarity_ofEntries (h : Ascending clusters.size entries) (r : Nat) :
    (ofEntries clusters entries).similarity r = scoreOf entries r :=
  h.scoreOf_eq r

theorem mem_ascending_of_positive {scores : List Score} (h : ∀ s ∈ scores, s.IsPositive)
    (t : Score) : t ∈ ascending scores ↔ t ∈ scores := by
  constructor
  · exact mem_of_mem_ascending
  · intro ht
    obtain ⟨s, hs, same⟩ := exists_mem_ascending ht
    rwa [(h s (mem_of_mem_ascending hs)).ext ((Score.compare_eq_eq _ _).mp same)]

/-! ## The records that reach a threshold -/

variable {these : Entries} {records : Nat} {value : Nat → Nat} {t : Score}

theorem mergeAll_increasing {lists : List (List Nat)}
    (increasing : ∀ l ∈ lists, l.Pairwise (· < ·)) (disjoint : lists.Pairwise List.Disjoint) :
    (mergeAll Nat.ble lists).Pairwise (· < ·) := by
  have trans : ∀ a b c, Nat.ble a b = true → Nat.ble b c = true → Nat.ble a c = true := by
    simp only [Nat.ble_eq]
    exact fun _ _ _ => Nat.le_trans
  have total : ∀ a b, (Nat.ble a b || Nat.ble b a) = true := by
    simp only [Bool.or_eq_true, Nat.ble_eq]
    exact Nat.le_total
  have sorted := mergeAll_sorted trans total lists fun l hl =>
    (increasing l hl).imp fun lt => Nat.ble_eq.mpr (Nat.le_of_lt lt)
  have nodup : lists.flatten.Nodup :=
    List.nodup_flatten.mpr ⟨fun l hl => (increasing l hl).imp Nat.ne_of_lt, disjoint⟩
  have differ : (mergeAll Nat.ble lists).Pairwise (· ≠ ·) :=
    List.nodup_iff_pairwise_ne.mp ((mergeAll_perm lists).nodup_iff.mpr nodup)
  exact (sorted.and differ).imp fun ⟨le, ne⟩ => Nat.lt_of_le_of_ne (Nat.ble_eq.mp le) ne

theorem reaching_eq (below : ∀ e ∈ these, e.1 < clusters.size)
    (clustered : Clustered clusters records value) (t : Score) :
    reaching clusters these t = (these.filter fun e => t.height ≤ e.2.height).map fun e =>
      (List.range records).filter fun x => value x = e.1 := by
  apply List.map_congr_left
  intro e he
  rw [Array.getD_eq_getD_getElem?, clustered e.1 (below e (List.mem_of_mem_filter he))]
  rfl

/-- In whichever order the values were gathered, merging their records gives the
records that reach the threshold, in increasing order. -/
theorem mergeAll_reaching (h : Ascending clusters.size entries) (perm : these.Perm entries)
    (clustered : Clustered clusters records value) (ht : 0 < t.height) :
    mergeAll Nat.ble (reaching clusters these t) =
      (List.range records).filter fun x => t.height ≤ (scoreOf entries (value x)).height := by
  rw [reaching_eq (fun e he => h.below e (perm.mem_iff.mp he)) clustered]
  refine eq_of_sorted (r := (· < ·)) (fun _ _ => Nat.lt_asymm) ?increasing
    (List.pairwise_lt_range.filter _) fun x => ?members
  case increasing =>
    have distinct : these.Pairwise fun a b => a.1 ≠ b.1 :=
      perm.symm.pairwise (h.increasing.imp Nat.ne_of_lt) Ne.symm
    apply mergeAll_increasing
    · intro l hl
      obtain ⟨e, -, rfl⟩ := List.mem_map.mp hl
      exact List.pairwise_lt_range.filter _
    · -- A record holds one value, so the lists of two values share no record.
      rw [List.pairwise_map]
      apply (distinct.filter _).imp
      intro a b differ x hx hy
      have ha := of_decide_eq_true (List.mem_filter.mp hx).2
      have hb := of_decide_eq_true (List.mem_filter.mp hy).2
      exact differ (ha.symm.trans hb)
  case members =>
    rw [(mergeAll_perm _).mem_iff, List.mem_flatten, List.mem_filter, List.mem_range,
      decide_eq_true_iff]
    constructor
    · rintro ⟨l, hl, hx⟩
      obtain ⟨e, he, rfl⟩ := List.mem_map.mp hl
      obtain ⟨inside, eq⟩ := List.mem_filter.mp hx
      obtain ⟨he, le⟩ := List.mem_filter.mp he
      rw [of_decide_eq_true eq, h.scoreOf_mem (perm.mem_iff.mp he)]
      exact ⟨List.mem_range.mp inside, of_decide_eq_true le⟩
    · rintro ⟨hx, le⟩
      obtain ⟨-, mem⟩ := h.mem_of_le ht le
      refine ⟨_, List.mem_map_of_mem (List.mem_filter.mpr ⟨perm.mem_iff.mpr mem, ?_⟩), ?_⟩
      · exact decide_eq_true le
      · exact List.mem_filter.mpr ⟨List.mem_range.mpr hx, decide_eq_true rfl⟩

theorem find?_index_of_rising {row : Row}
    (rising : row.index.toList.Pairwise fun x y => x.1.height < y.1.height) (t : Score) :
    row.recordsFor? t = (row.index.toList.find? (isAtLeast t)).map (·.2.get) := by
  have stays : StaysTrue (isAtLeast t) row.index := by
    intro i j le hj pass
    rcases Nat.lt_or_eq_of_le le with lt | rfl
    · have := List.pairwise_iff_getElem.mp rising i j (by simp; omega) (by simpa using hj) lt
      simp only [isAtLeast, decide_eq_true_iff, Score.rank_le_iff, Array.getElem_toList]
        at pass this ⊢
      omega
    · exact pass
  rw [recordsFor?_eq_find? row t stays, ← Array.find?_toList]

/-- The index finds the records that reach a threshold, unless no value does. It
finds nothing but what some value reaches. -/
theorem recordsFor?_ofEntries (h : Ascending clusters.size entries)
    (clustered : Clustered clusters records value) (ht : 0 < t.height) :
    match (ofEntries clusters entries).recordsFor? t with
    | none => ∀ r, (scoreOf entries r).height < t.height
    | some found => (∃ r, r < clusters.size ∧ t.height ≤ (scoreOf entries r).height) ∧ found =
        (List.range records).filter fun x => t.height ≤ (scoreOf entries (value x)).height := by
  have indexed := indexed_ofEntries clusters h.positive
  rw [find?_index_of_rising indexed.rising]
  -- Whatever value reaches the threshold, the index has an entry for its similarity.
  have entered : ∀ r, t.height ≤ (scoreOf entries r).height →
      ∃ x ∈ (ofEntries clusters entries).index.toList, x.1.height = (scoreOf entries r).height :=
    fun r le => indexed.complete _ (h.mem_of_le ht le).2
  cases first : (ofEntries clusters entries).index.toList.find? (isAtLeast t) with
  | none =>
    intro r
    by_contra le
    obtain ⟨x, hx, same⟩ := entered r (Int.not_lt.mp le)
    have := List.find?_eq_none.mp first x hx
    rw [isAtLeast, decide_eq_true_iff, Score.rank_le_iff] at this
    omega
  | some x =>
    obtain ⟨mem, le, least⟩ := (find?_eq_some_iff_of_sorted (fun x => x.1.height)
      indexed.rising _ x).mp first
    simp only [isAtLeast, decide_eq_true_iff, Score.rank_le_iff] at le least
    obtain ⟨these, perm, snapshot⟩ := indexed.records x mem
    obtain ⟨e, he, same⟩ := indexed.occurs x mem
    have attained := h.scoreOf_mem he
    refine ⟨⟨e.1, h.below e he, by rwa [attained, same]⟩, ?_⟩
    refine snapshot.trans ((mergeAll_reaching h perm clustered (by omega)).trans ?_)
    apply List.filter_congr
    intro y _
    rw [decide_eq_decide]
    constructor
    · omega
    · intro hy
      obtain ⟨z, hz, height⟩ := entered (value y) hy
      rcases least z hz (by omega) with rfl | lt
      · omega
      · omega

end Comparison.Row

end MatchingDependencies
