import MatchingDependencies.Proofs.Best

/-!
# Admitted dependencies

The data admit a dependency if it holds for all record pairs, enough of them
satisfy its premise, its thresholds are natural ones, and it says more than the
premise does. That is to say that its bound is admissible for the path of the
premise.
-/

set_option autoImplicit false

namespace MatchingDependencies

namespace Setting

/-- What a search is to find out about its data. -/
structure Admits (q : Setting) (premise : Scores) (index : Nat) (bound : Score) : Prop where
  length : premise.length = q.data.width
  column : index < q.data.width
  natural : premise.Fits q.data.Natural
  supported : q.minSupport ≤ q.data.support premise
  positive : 0 < bound
  unit : bound ≤ 1
  informative : premise.score index < bound
  disjoint : q.disjoint = true → (premise.score index).isZero = true
  holds : ∀ l r, l < q.data.leftCount → r < q.data.rightCount →
    (q.data.pairProfile (l, r)).satisfies premise = true →
      bound ≤ (q.data.pairProfile (l, r)).score index

end Setting

namespace Dataset.Sound

variable {d : Dataset} (hd : d.Sound) {premise : Scores} (length : premise.length = d.width)
  (natural : premise.Fits d.Natural)

include hd

theorem premise_generalizes_iff {g : Path} (proper : g.Proper d.Natural 0)
    (length : premise.length = d.width) (natural : premise.Fits d.Natural) :
    (g.premise d.width).generalizes premise = true ↔ g.Generalizes premise.constraints := by
  rw [(natural.numbered hd.natural_positive).generalizes_iff
    ((g.length_premise _).trans length.symm)]
  apply forall_congr'
  intro c
  rw [proper.demand_premise hd.natural_positive d.natural_within, Scores.demand_constraints]

include length natural

theorem support_premise_constraints :
    d.support (premise.constraints.premise d.width) = d.support premise := by
  apply List.countP_congr
  intro v hv
  rw [hd.satisfies_premise_iff natural.constraints_proper hv, hd.satisfies_iff_reaches length hv]

end Dataset.Sound

namespace Setting

variable {q : Setting} {premise : Scores} {index : Nat} {bound : Score}

theorem admits_iff (hd : q.data.Sound) (length : premise.length = q.data.width)
    (natural : premise.Fits q.data.Natural) :
    q.Admits premise index bound ↔ q.Admissible premise.constraints index bound.height := by
  have top := Score.unitHeight_lt_top
  have support := hd.support_premise_constraints length natural
  constructor
  · intro h
    have unit := (Score.le_iff _ _).mp h.unit
    have informative := (Score.lt_iff _ _).mp h.informative
    rw [Score.height_one] at unit
    refine ⟨natural.constraints_proper, h.column, ?_, ⟨?_, fun disjoint => ?_⟩, unit.1, ?_⟩
    · rw [Setting.Supports, support]
      exact h.supported
    · rw [Scores.demand_constraints]
      exact informative.1
    · rw [Scores.demand_constraints]
      exact (Score.isZero_iff _).mp (h.disjoint disjoint)
    · rintro v ⟨hv, reaches⟩
      have satisfied := (hd.satisfies_iff_reaches length hv).mpr reaches
      obtain ⟨l, r, hl, hr, rfl⟩ := Dataset.mem_pairProfiles_iff.mp hv
      exact ((Score.le_iff _ _).mp (h.holds l r hl hr satisfied)).1
  · intro h
    have positive := h.positive hd
    have most := h.unit
    obtain ⟨informative, disjoint⟩ := h.permitted
    rw [Scores.demand_constraints] at informative disjoint
    refine ⟨length, h.column, natural, ?_, ?_, ?_, ?_, fun yes => ?_, fun l r hl hr satisfied => ?_⟩
    · have supported := h.supported
      rwa [Setting.Supports, support] at supported
    · rw [Score.lt_iff, Score.height_zero]
      omega
    · rw [Score.le_iff, Score.height_one]
      omega
    · rw [Score.lt_iff]
      exact ⟨informative, by omega⟩
    · exact (Score.isZero_iff _).mpr (disjoint yes)
    · have hv := Dataset.mem_pairProfiles_iff.mpr ⟨l, r, hl, hr, rfl⟩
      have reaches := (hd.satisfies_iff_reaches length hv).mp satisfied
      have number := (hd.numbered_of_mem hv).demand_lt index
      rw [Score.le_iff]
      exact ⟨h.holds _ ⟨hv, reaches⟩, number⟩

theorem Admissible.admits (hd : q.data.Sound) {p : Path}
    (h : q.Admissible p index bound.height) :
    q.Admits (p.premise q.data.width) index bound := by
  rw [admits_iff hd (p.length_premise _) (h.proper.premise_fits hd.natural_positive
    q.data.natural_within), hd.constraints_premise h.proper]
  exact h

end Setting

end MatchingDependencies
