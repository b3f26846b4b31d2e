import MatchingDependencies.Proofs.Lattice.Sound

/-!
# Coverage

A bound is admissible for a premise if a search is to find it: the data support
the premise, every satisfying pair reaches the bound, and the bound may be
claimed. A lattice covers them all if it implies every admissible bound. Where
a claim is given up, its bound is claimed of specializations, and these imply
what was implied by the claim and is admissible.
-/

set_option autoImplicit false

namespace MatchingDependencies

namespace Setting

/-- What a search must not lose. -/
structure Admissible (q : Setting) (p : Path) (i : Nat) (height : Int) : Prop where
  proper : p.Proper q.data.Natural 0
  column : i < q.data.width
  supported : q.Supports p
  permitted : q.Permits p i height
  unit : height ≤ Score.unitHeight
  holds : ∀ v, q.data.Shows p v → height ≤ v.demand i

namespace Admissible

variable {q : Setting} {p g : Path} {i : Nat} {height most : Int}

theorem positive (h : q.Admissible p i height) (hd : q.data.Sound) : 0 < height :=
  Int.lt_of_le_of_lt (h.proper.demand_nonneg hd.natural_positive i) h.permitted.1

theorem permits (h : q.Admissible p i height) (hd : q.data.Sound) (hg : g.Proper q.data.Natural 0)
    (general : g.Generalizes p) (le : height ≤ most) : q.Permits g i most := by
  have demand := general i
  have low := hg.demand_nonneg hd.natural_positive i
  refine ⟨Int.lt_of_le_of_lt demand (Int.lt_of_lt_of_le h.permitted.1 le), fun disjoint => ?_⟩
  have zero := h.permitted.2 disjoint
  omega

/-- A claim that implies an admissible bound may be claimed of a specialization
of its premise that still generalizes the admissible one, if a vector fails the
latter. -/
theorem exists_specialization (h : q.Admissible p i height) (hd : q.data.Sound) {v : Scores}
    (len : v.length = q.data.width) (numbered : v.Numbered) (fails : ¬v.Reaches p)
    (hg : g.Proper q.data.Natural 0) (general : g.Generalizes p) {b : Score} (hb : b.IsThreshold)
    (le : height ≤ b.height) :
    ∃ x ∈ Traversal.nextThresholds q.data v, Traversal.mayClaim q x.1 x.2 i b = true ∧
      (g.set x.1 x.2).Generalizes p ∧ q.Supports (g.set x.1 x.2) := by
  obtain ⟨⟨c, t⟩, next, -, below⟩ := hd.exists_failed len numbered h.proper fails
  have natural := Dataset.natural_of_next next
  have proper : (g.set c t).Proper q.data.Natural 0 := hg.set (Nat.zero_le c) natural
  have between : (g.set c t).Generalizes p := by
    intro j
    rw [Path.demand_set]
    split
    · next eq => exact eq ▸ below
    · exact general j
  refine ⟨(c, t), next, ?_, between, h.supported.of_generalizes hd proper h.proper between⟩
  rw [mayClaim_iff (hd.natural_positive c t natural).1 hb (h.permits hd hg general le)]
  exact h.permits hd proper between le

end Admissible

end Setting

namespace Lattice

def Covers (q : Setting) (l : Lattice) : Prop :=
  ∀ p i height, q.Admissible p i height → l.Implied p height i

variable {q : Setting} {l l' : Lattice}

theorem covers_new (hd : q.data.Sound) : (Lattice.new q.data.width).Covers q := by
  intro p i height admissible
  refine ⟨[], fun c => ?_, ?_⟩
  · rw [Path.demand_nil]
    exact admissible.proper.demand_nonneg hd.natural_positive c
  · change height ≤ ((Lattice.new q.data.width).bound [] i).height
    rw [bound_new, if_pos ⟨rfl, admissible.column⟩, Score.height_one]
    exact admissible.unit

end Lattice

end MatchingDependencies
