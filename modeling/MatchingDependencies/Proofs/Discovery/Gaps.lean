import MatchingDependencies.Proofs.Dataset.Gaps
import MatchingDependencies.Proofs.Discovery.Outcome

/-!
# Lowering a threshold of a listed dependency

A condition of a listed dependency names the greatest similarity below its
threshold. Down to there the threshold may be lowered: the same record pairs
satisfy the premise, and the dependency holds as before.
-/

set_option autoImplicit false

namespace MatchingDependencies

namespace Scores

theorem generalizes_iff_forall_lt (g s : Scores) : g.generalizes s = true ↔
    ∀ i, i < g.length → i < s.length → g.score i ≤ s.score i := by
  induction g generalizing s with
  | nil => exact iff_of_true rfl nofun
  | cons a g ih =>
    cases s with
    | nil => exact iff_of_true rfl nofun
    | cons b s =>
      rw [generalizes, Bool.and_eq_true, decide_eq_true_iff, ih]
      constructor
      · rintro ⟨first, rest⟩ i hi hs
        cases i with
        | zero => exact first
        | succ i => exact rest i (Nat.lt_of_succ_lt_succ hi) (Nat.lt_of_succ_lt_succ hs)
      · intro all
        exact ⟨all 0 (Nat.succ_pos _) (Nat.succ_pos _), fun i hi hs =>
          all (i + 1) (Nat.succ_lt_succ hi) (Nat.succ_lt_succ hs)⟩

theorem score_set_self (v : Scores) {i : Nat} (inside : i < v.length) (t : Score) :
    Scores.score (v.set i t) i = t := by
  rw [score_eq_getD, List.getD_eq_getElem?_getD, List.getElem?_set_self inside]
  rfl

theorem score_set_of_ne (v : Scores) {i j : Nat} (ne : i ≠ j) (t : Score) :
    Scores.score (v.set i t) j = v.score j := by
  rw [score_eq_getD, score_eq_getD, List.getD_eq_getElem?_getD, List.getD_eq_getElem?_getD,
    List.getElem?_set_ne ne]

end Scores

namespace Dependency

theorem conditions_of_listed {d : Dataset} {l : Lattice} {m : Dependency}
    (h : m ∈ ofLattice d l) : m.conditions = conditionsOf d m.premise := by
  simp only [ofLattice, List.mem_flatMap] at h
  obtain ⟨level, -, ⟨premise, n⟩, -, h⟩ := h
  rw [Lattice.ofNode_eq] at h
  obtain ⟨i, -, rfl⟩ := List.mem_map.mp h
  exact congrArg (conditionsOf d) (premise_of_conditions rfl).symm

theorem of_mem_conditionsOf {d : Dataset} {premise : Scores} {c : Condition}
    (h : c ∈ conditionsOf d premise) : c.columnMatch < premise.length ∧
      c.threshold = premise.score c.columnMatch ∧
      c.disproved = (d.comparison c.columnMatch).previousBoundary? c.threshold := by
  obtain ⟨⟨t, i⟩, mem, rfl⟩ := List.mem_map.mp h
  have found := List.mem_zipIdx_iff_getElem?.mp mem
  refine ⟨(List.getElem?_eq_some_iff.mp found).1, ?_, rfl⟩
  rw [Scores.score_eq_getD, List.getD_eq_getElem?_getD, found]
  rfl

end Dependency

namespace Dataset

def Holds (d : Dataset) (premise : Scores) (index : Nat) (bound : Score) : Prop :=
  ∀ v ∈ d.pairProfiles, v.satisfies premise = true → bound ≤ v.score index

/-- Thresholds in the gap below a bound are reached by the pairs that reach the
bound. -/
def Interchangeable (d : Dataset) (m : Nat) (b : Score) : Prop :=
  ∀ t, ((d.comparison m).previousBoundary? b).getD 0 < t → t ≤ b → ∀ l r,
    l < d.leftCount → r < d.rightCount →
      (t ≤ (d.pairProfile (l, r)).score m ↔ b ≤ (d.pairProfile (l, r)).score m)

/-- A condition of a dependency may be lowered to any threshold above its
disproved bound. The same pairs satisfy the premise then, and the dependency
holds if it held before. -/
def Lowers (d : Dataset) (m : Dependency) (c : Condition) : Prop :=
  ∀ t, c.disproved.getD 0 < t → t ≤ c.threshold →
    (∀ v ∈ d.pairProfiles,
      v.satisfies (m.premise.set c.columnMatch t) = v.satisfies m.premise) ∧
    d.support (m.premise.set c.columnMatch t) = d.support m.premise ∧
    (d.Holds (m.premise.set c.columnMatch t) m.index m.bound ↔ d.Holds m.premise m.index m.bound)

variable {d : Dataset}

theorem Sound.satisfies_set (hd : d.Sound) {premise : Scores} {i : Nat} {t : Score}
    (inside : i < premise.length)
    (above : ((d.comparison i).previousBoundary? (premise.score i)).getD 0 < t)
    (le : t ≤ premise.score i) {v : Scores} (hv : v ∈ d.pairProfiles) :
    v.satisfies (premise.set i t) = v.satisfies premise := by
  rw [Bool.eq_iff_iff, Scores.satisfies, Scores.satisfies, Scores.generalizes_iff_forall_lt,
    Scores.generalizes_iff_forall_lt, List.length_set]
  refine forall_congr' fun j => forall₂_congr fun hj hv' => ?_
  by_cases same : i = j
  · subst same
    rw [Scores.score_set_self premise inside]
    exact hd.reached_alike (d.length_of_mem_pairProfiles hv ▸ hv') above le hv
  · rw [Scores.score_set_of_ne premise same]

theorem Sound.lowers (hd : d.Sound) {l : Lattice} {m : Dependency}
    (hm : m ∈ Dependency.ofLattice d l) {c : Condition} (hc : c ∈ m.conditions) :
    d.Lowers m c := by
  rw [Dependency.conditions_of_listed hm] at hc
  obtain ⟨inside, threshold, disproved⟩ := Dependency.of_mem_conditionsOf hc
  intro t above le
  rw [disproved, threshold] at above
  rw [threshold] at le
  have alike := fun v hv => hd.satisfies_set (v := v) inside above le hv
  refine ⟨alike, List.countP_congr fun v hv => by rw [alike v hv], ?_⟩
  exact forall₂_congr fun v hv => by rw [alike v hv]

end Dataset

namespace Discovery

/-- Thresholds in a gap between similarities are interchangeable, so conditions of
listed dependencies may be lowered down to their disproved bounds. And next to
every record pair stands the least natural threshold that it fails. -/
theorem gaps_of_build {tables : Tables} (loaded : tables.Loaded)
    {columnMatches : List (Nat × Nat × Measure)} {nullEqualsNull : Bool} {data : Dataset}
    (h : Dataset.build tables columnMatches nullEqualsNull = .ok data) :
    (∀ m, m < data.width → (∀ b, 0 < b → data.Interchangeable m b) ∧
      ∀ l r, l < data.leftCount → r < data.rightCount →
        data.Excludes m ((data.pairProfile (l, r)).score m)
          ((data.comparison m).nextBoundary? ((data.pairProfile (l, r)).score m))) ∧
    ∀ d : Discovery, d.dataset = .ok data → ∀ o, d.execute = .ok (some o) →
      ∀ m ∈ o.dependencies, ∀ c ∈ m.conditions, data.Lowers m c := by
  have hd := Dataset.sound_of_build loaded h
  refine ⟨fun m hm => ⟨fun b _ t above le l r hl hr => ?_, fun l r hl hr => ?_⟩,
    fun d built o ran m listed c hc => ?_⟩
  · exact hd.reached_alike hm above le (Dataset.mem_pairProfiles_iff.mpr ⟨l, r, hl, hr, rfl⟩)
  · exact hd.excludes hm (Dataset.mem_pairProfiles_iff.mpr ⟨l, r, hl, hr, rfl⟩)
  · rw [execute_eq built] at ran
    obtain ⟨s, -, rfl⟩ := Option.map_eq_some_iff.mp (Except.ok.inj ran)
    exact hd.lowers listed hc

/-- Cities are alike or not at all. So all thresholds above zero are the same, and
people of two cities fail the first one. Where equal names imply equal cities, names
that are only somewhat alike do so as well. -/
theorem gaps_of_build_namesakes :
    Tables.Loaded ⟨namesakes, none⟩ ∧
      Dataset.build ⟨namesakes, none⟩ namesakeMatches true = .ok namesakeData ∧
      (namesakeData.comparison 1).previousBoundary? 1 = none ∧
      namesakeData.Interchangeable 1 1 ∧
      namesakeData.pairProfile (0, 1) = [1, 0] ∧
      (namesakeData.comparison 1).nextBoundary? 0 = some 1 ∧
      namesakeData.Excludes 1 0 (some 1) ∧
      ∃ o, amongStrangers.execute = .ok (some o) ∧
        o.dependencies.map (fun m => (m.premise, m.index, m.bound)) =
          [([1, 0], 1, 1), ([0, 1], 0, 1)] ∧
        ∀ m ∈ o.dependencies, ∀ c ∈ m.conditions, strangerData.Lowers m c := by
  have gaps := (gaps_of_build namesakes_loaded build_namesakes).1 1 (by decide)
  have profile : namesakeData.pairProfile (0, 1) = [1, 0] := by with_unfolding_all rfl
  have next : (namesakeData.comparison 1).nextBoundary? 0 = some 1 := by with_unfolding_all rfl
  have excludes := gaps.2 0 1 (by decide) (by decide)
  rw [profile] at excludes
  change namesakeData.Excludes 1 0 ((namesakeData.comparison 1).nextBoundary? 0) at excludes
  rw [next] at excludes
  obtain ⟨o, ran, listed⟩ := listed_strangers
  have lowers := (gaps_of_build strangers_loaded build_strangers).2 amongStrangers build_strangers
  exact ⟨namesakes_loaded, build_namesakes, by with_unfolding_all rfl, gaps.1 1 (by decide),
    profile, next, excludes, o, ran, listed, lowers o ran⟩

end Discovery

end MatchingDependencies
