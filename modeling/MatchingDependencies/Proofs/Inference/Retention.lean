import MatchingDependencies.Proofs.Coverage
import MatchingDependencies.Proofs.Inference.Contradictions

/-!
# Refuting claims loses nothing

An admissible bound that a refuted claim implied is either shared by the pair
that refutes it, and then the lowered claim implies it, or it belongs to a
premise that excludes the pair, and then a specialization that inherits the old
bound does.
-/

set_option autoImplicit false

namespace MatchingDependencies.Inference

variable {q : Setting} {l l' : Lattice} {p : Path} {i : Nat} {v : Scores}

theorem Reduced.sound (h : Reduced q.data.Natural q l l') (hl : l.Sound q) : l'.Sound q :=
  hl.of_formed h.formed h.tracked.unsupported (h.permitted hl.permitted)

variable (hd : q.data.Sound) (hv : v ∈ q.data.pairProfiles)

include hd hv

theorem correctClaim_covers (hl : l.Sound q) (hc : l.Covers q)
    (above : v.demand i < (l.bound p i).height) : (correctClaim q v l (p, i)).Covers q := by
  have len := q.data.length_of_mem_pairProfiles hv
  have numbered := hd.numbered_of_mem hv
  have claimed := Int.lt_of_le_of_lt (numbered.demand_nonneg i) above
  obtain ⟨proper, -, hi⟩ := hl.stored_of_bound claimed
  have threshold := hl.isThreshold_bound claimed
  have next := hd.mem_nextThresholds_iff len numbered
  obtain ⟨weakened, replaced⟩ :=
    weaken_replaces hl.formed claimed (hl.formed.inUnit_of_below numbered above)
  obtain ⟨-, grows, implied⟩ := claimSpecializations_grows (q := q) proper threshold hi
    (fun x hx => ((next x.1 x.2).mp hx).1) weakened.formed
  intro s j height admissible
  obtain ⟨g, general, le⟩ := hc s j height admissible
  by_cases here : g = p ∧ j = i
  · obtain ⟨rfl, rfl⟩ := here
    by_cases shares : v.Reaches s
    · have low := admissible.holds v ⟨hv, shares⟩
      have less : g.demand j < (v.score j).height :=
        Int.lt_of_le_of_lt (general j) (Int.lt_of_lt_of_le admissible.permitted.1 low)
      exact grows.implied ((weakened.implied replaced less).trans low general)
    · obtain ⟨x, hx, may, between, supported⟩ :=
        admissible.exists_specialization hd len numbered shares proper general threshold le
      have listed : ¬(weaken l g j (v.score j)).Dropped (g.set x.1 x.2) := by
        rw [Lattice.Dropped, weakened.tracked.unsupported]
        exact hl.not_dropped hd (proper.set (Nat.zero_le _) ((next x.1 x.2).mp hx).1) supported
      exact (implied x hx may listed).trans le between
  · refine ⟨g, general, Int.le_trans ?_ (grows.le g j)⟩
    rw [weakened.others g j here]
    exact le

theorem Refutes.covers (hl : l.Sound q) (hc : l.Covers q) (h : Refutes q v l l') :
    l'.Covers q := by
  have len := q.data.length_of_mem_pairProfiles hv
  have numbered := hd.numbered_of_mem hv
  induction h with
  | refl => exact hc
  | correct before contradicts ih =>
    have sound := (before.reduced hd q.data.natural_self len numbered hl.formed).sound hl
    exact correctClaim_covers hd hv sound ih contradicts.2

end MatchingDependencies.Inference
