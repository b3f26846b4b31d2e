import MatchingDependencies.Proofs.Search

/-!
# The best claims

The data alone say which claims are best: those that are admissible, with the
greatest admissible bound, while no generalization of the premise admits as
much. A lattice whose claims are all valid and that implies every admissible
bound claims exactly these of supported premises. So whatever path a search
has taken, it ends with the best claims.
-/

set_option autoImplicit false

namespace MatchingDependencies

open Traversal (AllValid Valid)

namespace Setting

/-- No other claim about the column match says as much of as many pairs. -/
structure Best (q : Setting) (p : Path) (i : Nat) (height : Int) : Prop where
  admissible : q.Admissible p i height
  greatest : ∀ h, q.Admissible p i h → h ≤ height
  general : ∀ g, g.Generalizes p → g ≠ p → ¬q.Admissible g i height

namespace Best

variable {q : Setting} {p g : Path} {i : Nat} {height most : Int} (best : q.Best p i height)

include best

theorem lt_of_generalizes (hd : q.data.Sound) (other : q.Admissible g i most)
    (general : g.Generalizes p) (differ : g ≠ p) : most < height := by
  refine Int.not_le.mp fun le => best.general g general differ ?_
  have admissible := best.admissible
  exact ⟨other.proper, other.column, other.supported,
    admissible.permits hd other.proper general (Int.le_refl _), admissible.unit,
    fun v shown => Int.le_trans le (other.holds v shown)⟩

/-- Among similarities, a best bound is the least one of the satisfying pairs, or
one if there are none. -/
theorem attained (unit : ∀ v ∈ q.data.pairProfiles, v.InUnit) :
    (∃ v, q.data.Shows p v ∧ v.demand i = height) ∨
      (∀ v, ¬q.data.Shows p v) ∧ height = Score.unitHeight := by
  apply Classical.byContradiction
  intro neither
  obtain ⟨never, bounded⟩ := not_or.mp neither
  have admissible := best.admissible
  have above : ∀ v, q.data.Shows p v → height + 1 ≤ v.demand i := by
    intro v shown
    have least := admissible.holds v shown
    have differ : v.demand i ≠ height := fun eq => never ⟨v, shown, eq⟩
    omega
  have below : height + 1 ≤ Score.unitHeight := by
    by_cases some : ∃ v, q.data.Shows p v
    · obtain ⟨v, shown⟩ := some
      exact Int.le_trans (above v shown) ((unit v shown.1).demand_le i)
    · have most := admissible.unit
      have differ : height ≠ Score.unitHeight := fun eq => bounded ⟨not_exists.mp some, eq⟩
      omega
  -- then the next height would be admissible too
  obtain ⟨less, disjoint⟩ := admissible.permitted
  have greater := best.greatest (height + 1) ⟨admissible.proper, admissible.column,
    admissible.supported, ⟨by omega, disjoint⟩, below, above⟩
  omega

end Best

end Setting

namespace Lattice

variable {q : Setting} {l : Lattice} {p g : Path} {i : Nat} {height : Int}

structure Final (q : Setting) (l : Lattice) : Prop where
  sound : l.Sound q
  covers : l.Covers q
  valid : AllValid q l

theorem admissible_of_valid (hl : l.Sound q) (positive : 0 < (l.bound p i).height)
    (valid : Valid q l p i) : q.Admissible p i (l.bound p i).height := by
  obtain ⟨proper, -, column⟩ := hl.stored_of_bound positive
  exact ⟨proper, column, valid.supported, hl.permitted p i positive, hl.bound_le p i, valid.holds⟩

namespace Final

variable (h : l.Final q) (hd : q.data.Sound)

include h

theorem valid_of_supports (positive : 0 < (l.bound p i).height) (hd : q.data.Sound)
    (supported : q.Supports p) : Valid q l p i := by
  rcases h.valid p i positive with dropped | valid
  · exact absurd dropped
      (h.sound.not_dropped hd (h.sound.stored_of_bound positive).1 supported)
  · exact valid

include hd

theorem best_of_bound (positive : 0 < (l.bound p i).height) (listed : ¬l.Dropped p) :
    q.Best p i (l.bound p i).height := by
  have valid := (h.valid p i positive).resolve_left listed
  have admissible := admissible_of_valid h.sound positive valid
  refine ⟨admissible, fun height better => ?_, fun g general differ better => ?_⟩
  · obtain ⟨g, general, le⟩ := h.covers p i height better
    by_cases same : g = p
    · exact same ▸ le
    · exact Int.le_of_lt (Int.lt_of_le_of_lt le (valid.least g general same))
  · obtain ⟨g', general', le⟩ := h.covers g i _ better
    have less : g' ≠ p := by
      rintro rfl
      exact differ (general.antisymm hd.natural_positive better.proper admissible.proper general')
    exact absurd (valid.least g' (general'.trans general) less) (Int.not_lt.mpr le)

theorem bound_of_best (best : q.Best p i height) :
    (l.bound p i).height = height ∧ ¬l.Dropped p := by
  have admissible := best.admissible
  have positive := admissible.positive hd
  obtain ⟨g, general, le⟩ := h.covers p i height admissible
  have claimed : 0 < (l.bound g i).height := Int.lt_of_lt_of_le positive le
  have proper := (h.sound.stored_of_bound claimed).1
  have supported := admissible.supported.of_generalizes hd proper admissible.proper general
  have valid := h.valid_of_supports claimed hd supported
  have less : q.Admissible g i height :=
    ⟨proper, admissible.column, supported, admissible.permits hd proper general (Int.le_refl _),
      admissible.unit, fun v shown => Int.le_trans le (valid.holds v shown)⟩
  -- A generalization that claims as much would be admissible itself.
  obtain rfl : g = p := Classical.byContradiction fun differ => best.general g general differ less
  have most := best.greatest _ (admissible_of_valid h.sound claimed valid)
  exact ⟨Int.le_antisymm most le, h.sound.not_dropped hd proper admissible.supported⟩

end Final

end Lattice

namespace Search

variable {q : Setting} {s : Search}

theorem final_of_run (hd : q.data.Sound) (result : run q = some s) : s.lattice.Final q := by
  obtain ⟨upright, valid⟩ := (start_upright hd).runFor hd result
  exact ⟨upright.shared.lattice, upright.shared.covers, valid⟩

end Search

end MatchingDependencies
