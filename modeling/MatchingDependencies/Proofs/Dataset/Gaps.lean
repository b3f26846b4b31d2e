import MatchingDependencies.Proofs.Comparison.Gaps
import MatchingDependencies.Proofs.Dataset.Pairs

/-!
# Thresholds in a gap

Between two neighbouring similarities that occur, it makes no difference where a
threshold stands: the same record pairs reach it. And above the similarity of a
record pair, the next natural threshold is the least that the pair fails.
-/

set_option autoImplicit false

namespace MatchingDependencies

namespace Dataset

variable {d : Dataset}

/-- Next to a record pair stands the least natural threshold that it fails, or
nothing if it reaches them all. -/
structure Excludes (d : Dataset) (m : Nat) (s : Score) (next? : Option Score) : Prop where
  fails : ∀ t, next? = some t → d.Natural m t ∧ ¬t ≤ s
  least : ∀ t, next? = some t → ∀ u, d.Natural m u → ¬u ≤ s → t ≤ u
  none_iff : next? = none ↔ ∀ u, d.Natural m u → u ≤ s

namespace Sound

variable (hd : d.Sound) {m : Nat} (hm : m < d.width)

include hd hm

theorem score_natural {v : Scores} (hv : v ∈ d.pairProfiles) :
    v.score m = 0 ∨ d.Natural m (v.score m) := by
  obtain ⟨l, r, -, -, eq⟩ := hd.exists_values hm hv
  rcases (hd.comparisons m hm).canonical l r with zero | positive
  · exact .inl (eq.trans zero)
  · exact .inr (hd.natural_iff.mpr ⟨hm, eq ▸ positive, v, hv, rfl⟩)

theorem reached_alike {b t : Score}
    (above : ((d.comparison m).previousBoundary? b).getD 0 < t) (le : t ≤ b) {v : Scores}
    (hv : v ∈ d.pairProfiles) : t ≤ v.score m ↔ b ≤ v.score m := by
  rw [Score.le_iff] at le
  have spec := (hd.comparisons m hm).previousBoundary?_spec le.2
  have low : 0 < t.height ∧ ∀ s, d.Natural m s → s.height < b.height → s.height < t.height := by
    rw [Score.lt_iff] at above
    cases found : (d.comparison m).previousBoundary? b with
    | none =>
      rw [found] at spec above
      rw [Option.getD_none, Score.height_zero] at above
      exact ⟨above.1, fun s hs less => absurd (spec s hs) (Int.not_le.mpr less)⟩
    | some p =>
      rw [found] at spec above
      rw [Option.getD_some] at above
      have positive := ((hd.comparisons m hm).positive spec.1).1
      exact ⟨by omega, fun s hs less => Int.lt_of_le_of_lt (spec.2.2 s hs less) above.1⟩
  rw [Score.le_iff, Score.le_iff]
  refine and_congr_left fun _ => ⟨fun reached => ?_, fun reached => Int.le_trans le.1 reached⟩
  by_contra short
  rcases hd.score_natural hm hv with zero | natural
  · rw [zero, Score.height_zero] at reached
    omega
  · have := low.2 _ natural (Int.not_le.mp short)
    omega

theorem excludes {v : Scores} (hv : v ∈ d.pairProfiles) :
    d.Excludes m (v.score m) ((d.comparison m).nextBoundary? (v.score m)) := by
  have number : (v.score m).height < Score.topHeight := (hd.numbered_of_mem hv).demand_lt m
  have spec := (hd.comparisons m hm).nextBoundary?_spec number
  have failed : ∀ u, ¬u ≤ v.score m ↔ (v.score m).height < u.height := fun u => by
    rw [Score.le_iff]
    omega
  cases found : (d.comparison m).nextBoundary? (v.score m) with
  | none =>
    rw [found] at spec
    exact ⟨nofun, nofun, iff_of_true rfl fun u hu =>
      (Score.le_iff _ _).mpr ⟨spec u hu, number⟩⟩
  | some t =>
    rw [found] at spec
    obtain ⟨mem, above, least⟩ := spec
    have fails := (failed t).mpr above
    refine ⟨?_, ?_, iff_of_false nofun fun all => fails (all t mem)⟩
    · intro t' eq
      obtain rfl := Option.some.inj eq
      exact ⟨mem, fails⟩
    · intro t' eq u hu short
      obtain rfl := Option.some.inj eq
      exact (Score.le_iff _ _).mpr
        ⟨least u hu ((failed u).mp short), ((hd.comparisons m hm).positive hu).2⟩

end Sound

end Dataset

end MatchingDependencies
