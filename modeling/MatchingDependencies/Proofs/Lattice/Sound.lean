import MatchingDependencies.Proofs.Lattice.Formed
import MatchingDependencies.Proofs.Setting

/-!
# The lattice of a search

In the lattice of a search every claim is permitted, and only unsupported
premises are marked, so no supported premise is dropped.
-/

set_option autoImplicit false

namespace MatchingDependencies

namespace Lattice

structure Sound (q : Setting) (l : Lattice) : Prop where
  claims : l.claims.Sound q.data.Natural
  width : l.claims.width = q.data.width
  cost : l.claims.cost = ClaimLattice.unitCost
  marks : l.unsupported.Sound q.data.Natural
  unsupported : ∀ m, l.unsupported.Marked m → ¬q.Supports m
  permitted : ∀ p i, 0 < (l.bound p i).height → q.Permits p i (l.bound p i).height

variable {q : Setting} {l l' : Lattice} {p : Path} {i : Nat}

namespace Sound

theorem formed (hl : l.Sound q) : l.Formed q.data.Natural q.data.width :=
  ⟨hl.claims, hl.width, hl.cost, hl.marks⟩

theorem of_formed (hl : l.Sound q) (formed : l'.Formed q.data.Natural q.data.width)
    (unsupported : l'.unsupported = l.unsupported)
    (permitted : ∀ p i, 0 < (l'.bound p i).height → q.Permits p i (l'.bound p i).height) :
    l'.Sound q :=
  ⟨formed.claims, formed.width, formed.cost, formed.marks, unsupported ▸ hl.unsupported,
    permitted⟩

theorem levelOf_eq (hl : l.Sound q) (p : Path) : l.claims.levelOf p = p.length :=
  hl.formed.levelOf_eq p

theorem bound_nonneg (hl : l.Sound q) (p : Path) (i : Nat) : 0 ≤ (l.bound p i).height :=
  hl.claims.bound_nonneg p i

theorem bound_le (hl : l.Sound q) (p : Path) (i : Nat) : (l.bound p i).height ≤ Score.unitHeight :=
  hl.claims.bound_le p i

theorem stored_of_bound (hl : l.Sound q) (h : 0 < (l.bound p i).height) :
    p.Proper q.data.Natural 0 ∧ (l.find? p).isSome = true ∧ i < q.data.width :=
  hl.formed.stored_of_bound h

theorem isThreshold_bound (hl : l.Sound q) (h : 0 < (l.bound p i).height) :
    (l.bound p i).IsThreshold :=
  hl.formed.isThreshold_bound h

theorem isUnsupported_iff (hl : l.Sound q) (hp : p.Proper q.data.Natural 0) :
    l.isUnsupported p = true ↔ l.Dropped p :=
  hl.formed.isUnsupported_iff hp

theorem not_dropped (hl : l.Sound q) (hd : q.data.Sound) (hp : p.Proper q.data.Natural 0)
    (supported : q.Supports p) : ¬l.Dropped p := by
  rintro ⟨m, marked, general⟩
  exact hl.unsupported m marked
    (supported.of_generalizes hd (hl.marks.marked_proper marked) hp general)

end Sound

theorem Sound.takeLowestChanged (hl : l.Sound q) :
    l.takeLowestChanged.2.Sound q ∧ ∀ k, ¬l.takeLowestChanged.2.Noted k := by
  obtain ⟨formed, quiet⟩ := hl.formed.takeLowestChanged
  exact ⟨hl.of_formed formed rfl hl.permitted, quiet⟩

theorem sound_new (hd : q.data.Sound) : (Lattice.new q.data.width).Sound q := by
  have formed := formed_new hd.natural_positive q.data.natural_within
  refine ⟨formed.claims, formed.width, formed.cost, formed.marks,
    fun m marked => absurd marked (UnsupportedSet.not_marked_empty m), fun p i => ?_⟩
  rw [bound_new]
  split
  · next here =>
    rw [here.1, Score.height_one]
    exact fun _ => ⟨by rw [Path.demand_nil]; exact Score.unitHeight_pos,
      fun _ => Path.demand_nil i⟩
  · rw [Score.height_zero]
    exact fun h => absurd h (Int.lt_irrefl 0)

end Lattice

end MatchingDependencies
