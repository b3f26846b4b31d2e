import MatchingDependencies.Proofs.Dataset.Pairs

/-!
# What a search may claim

A premise is supported if enough record pairs satisfy it, and so are its
generalizations. A bound that may be claimed of a premise says more than the
premise itself, and with the disjointness rule nothing about what it
constrains.
-/

set_option autoImplicit false

namespace MatchingDependencies

namespace Dataset

def Shows (d : Dataset) (p : Path) (v : Scores) : Prop := v ∈ d.pairProfiles ∧ v.Reaches p

variable {d : Dataset} {p q : Path}

theorem Sound.constraints_premise (hd : d.Sound) (hp : p.Proper d.Natural 0) :
    (p.premise d.width).constraints = p :=
  hp.constraints_premise hd.natural_positive d.natural_within

theorem Sound.satisfies_premise_iff (hd : d.Sound) (hp : p.Proper d.Natural 0) {v : Scores}
    (hv : v ∈ d.pairProfiles) : v.satisfies (p.premise d.width) = true ↔ v.Reaches p :=
  hp.satisfies_premise_iff hd.natural_positive d.natural_within (d.length_of_mem_pairProfiles hv)
    (hd.numbered_of_mem hv)

theorem Sound.support_le_of_generalizes (hd : d.Sound) (hp : p.Proper d.Natural 0)
    (hq : q.Proper d.Natural 0) (general : p.Generalizes q) :
    d.support (q.premise d.width) ≤ d.support (p.premise d.width) := by
  apply List.countP_mono_left
  intro v hv
  rw [hd.satisfies_premise_iff hq hv, hd.satisfies_premise_iff hp hv]
  exact fun reaches => reaches.of_generalizes general

/-- A pair that fails a premise fails a natural threshold of it, and so one
that is next to its profile. -/
theorem Sound.exists_failed (hd : d.Sound) {v : Scores} (len : v.length = d.width)
    (numbered : v.Numbered) (hp : p.Proper d.Natural 0) (fails : ¬v.Reaches p) :
    ∃ x ∈ Traversal.nextThresholds d v, v.demand x.1 < x.2.height ∧ x.2.height ≤ p.demand x.1 := by
  obtain ⟨c, less⟩ := Classical.not_forall.mp fails
  have less := Int.not_le.mp less
  have low := numbered.demand_nonneg c
  have mem := Path.mem_of_score_ne_zero c (p := p) (by omega)
  have natural : d.Natural c (p.score c) := hp.allowed _ mem
  have hc := d.natural_within c _ natural
  obtain ⟨t, next⟩ := hd.exists_next len numbered natural less
  have facts := (hd.mem_nextThresholds_iff len numbered c t).mp next
  exact ⟨(c, t), next, facts.2.1, facts.2.2 _ natural less⟩

end Dataset

namespace Setting

def Supports (q : Setting) (p : Path) : Prop :=
  q.minSupport ≤ q.data.support (p.premise q.data.width)

def Permits (q : Setting) (p : Path) (i : Nat) (height : Int) : Prop :=
  p.demand i < height ∧ (q.disjoint = true → p.demand i = 0)

variable {q : Setting} {p g : Path} {i c : Nat}

theorem Supports.of_generalizes (hd : q.data.Sound) (hg : g.Proper q.data.Natural 0)
    (hp : p.Proper q.data.Natural 0) (h : q.Supports p) (general : g.Generalizes p) :
    q.Supports g :=
  Nat.le_trans h (hd.support_le_of_generalizes hg hp general)

theorem mayClaim_iff {t b : Score} (ht : 0 < t.height) (hb : b.IsThreshold)
    (permitted : q.Permits p i b.height) :
    Traversal.mayClaim q c t i b = true ↔ q.Permits (p.set c t) i b.height := by
  have top := Score.unitHeight_lt_top
  have most := hb.2
  rw [Traversal.mayClaim, Permits, Path.demand_set]
  split
  · rw [Bool.and_eq_true, Bool.not_eq_true', decide_eq_true_iff, Score.lt_iff]
    constructor
    · rintro ⟨overlapping, less, -⟩
      exact ⟨less, fun disjoint => absurd disjoint (by simp [overlapping])⟩
    · rintro ⟨less, zero⟩
      refine ⟨Bool.eq_false_iff.mpr fun disjoint => ?_, less, by omega⟩
      have := zero disjoint
      omega
  · exact iff_of_true rfl permitted

end Setting

end MatchingDependencies
