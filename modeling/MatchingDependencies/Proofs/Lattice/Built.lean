import MatchingDependencies.Proofs.Lattice.Formed

/-!
# Lattices that can be made

A lattice is made from a new one by claiming bounds of premises, by changing the
bounds of premises that have a node, and by noting changes and marking premises
as unsupported, in any order. Whatever the premises are, such a lattice is
well-formed.
-/

set_option autoImplicit false

namespace MatchingDependencies

open MatchingDependencies.Path (Allowed)

def Path.numbers (width : Nat) : Allowed := fun c t => c < width ∧ t.IsPositive

theorem Path.numbers_within (width : Nat) : (Path.numbers width).Within width :=
  fun _ _ h => h.1

theorem Path.numbers_positive (width : Nat) : (Path.numbers width).Positive :=
  fun _ _ h => h.2

def Path.similarities (width : Nat) : Allowed := fun c t => c < width ∧ t.IsThreshold

theorem Path.similarities_within (width : Nat) : (Path.similarities width).Within width :=
  fun _ _ h => h.1

theorem Path.similarities_graded (width : Nat) : (Path.similarities width).Graded :=
  fun _ _ h => h.2

theorem Path.similarities_positive (width : Nat) : (Path.similarities width).Positive :=
  (similarities_graded width).positive

namespace Scores

variable {v : Scores} {width : Nat}

theorem InUnit.constraints_allowed (h : v.InUnit) (len : v.length = width) :
    v.constraints.Proper (Path.similarities width) 0 := by
  apply Fits.constraints_proper
  intro c nonzero
  exact ⟨len ▸ lt_length_of_ne_zero nonzero, Score.isThreshold_of_inUnit (h.score c) nonzero⟩

theorem Numbered.constraints_allowed (h : v.Numbered) (len : v.length = width) :
    v.constraints.Proper (Path.numbers width) 0 := by
  apply Fits.constraints_proper
  intro c nonzero
  exact ⟨len ▸ lt_length_of_ne_zero nonzero, h.fits c nonzero⟩

end Scores

theorem ClaimLattice.Sound.addIfMinimal_zero {ok : Allowed} {l : ClaimLattice} (hl : l.Sound ok)
    (p : Path) {b : Score} (zero : b.height = 0) (i : Nat) :
    ∃ count, l.addIfMinimal p b i = (false, l.visiting count) := by
  have root : l.root.claims b i = true := by
    have low := hl.bound_nonneg [] i
    have most := hl.bound_le [] i
    have top := Score.unitHeight_lt_top
    change 0 ≤ (l.root.bound i).height at low
    change (l.root.bound i).height ≤ _ at most
    rw [Node.claims, decide_eq_true_iff, Score.le_iff, zero]
    exact ⟨low, Int.lt_of_le_of_lt most top⟩
  have found : (l.branches.seekInsertion p.meets (fun n => n.claims b i) p l.root 0).found =
      true := by
    rw [Branches.seekInsertion_eq_lookThrough, lookThrough_found, List.any_eq_true]
    refine ⟨l.root, ?_, root⟩
    cases p with
    | nil => exact List.mem_cons_self
    | cons x p => exact List.mem_cons_self
  exact ⟨_, by rw [ClaimLattice.addIfMinimal, found]; rfl⟩

namespace Lattice

/-- The lattices that can be made, whatever is claimed and marked. -/
inductive Built (width : Nat) : Lattice → Prop
  | new : Built width (Lattice.new width)
  | add {l : Lattice} {premise : Scores} {bound : Score} {index : Nat} (h : Built width l)
      (len : premise.length = width) (numbered : premise.Numbered) (hb : bound.inUnit = true)
      (column : index < width) : Built width (l.addIfMinimal premise.constraints bound index).2
  | addSupported {l : Lattice} {premise : Scores} {bound : Score} {index : Nat} (h : Built width l)
      (len : premise.length = width) (numbered : premise.Numbered) (hb : bound.inUnit = true)
      (column : index < width) :
      Built width (l.addIfMinimalSupported premise.constraints bound index).2
  | setBound {l : Lattice} {bound : Score} (h : Built width l) (premise : Scores) (index : Nat)
      (hb : bound.inUnit = true) : Built width (l.setBound premise.constraints index bound)
  | markChanged {l : Lattice} (h : Built width l) (premise : Scores) :
      Built width (l.markChanged premise.constraints)
  | takeLowestChanged {l : Lattice} (h : Built width l) : Built width l.takeLowestChanged.2
  | ask {l : Lattice} (h : Built width l) (premise : Scores) (bound : Score) (index : Nat) :
      Built width (l.isImplied premise.constraints bound index).2
  | markUnsupported {l : Lattice} {premise : Scores} (h : Built width l)
      (len : premise.length = width) (numbered : premise.Numbered) :
      Built width (l.markUnsupported premise.constraints)

variable {width : Nat} {l : Lattice}

theorem Formed.addAny {ok : Allowed} {p : Path} {b : Score} {i : Nat} (hl : l.Formed ok width)
    (hp : p.Proper ok 0) (hb : b.inUnit = true) (hi : i < width) :
    (l.addIfMinimal p b i).2.Formed ok width := by
  have unit := (Score.inUnit_iff b).mp hb
  by_cases zero : b.height = 0
  · obtain ⟨count, eq⟩ := hl.claims.addIfMinimal_zero p zero i
    rw [Lattice.addIfMinimal, eq]
    exact hl.visiting count
  · exact (hl.addIfMinimal hp ⟨by omega, unit.2⟩ hi).1

theorem Built.formed (h : Built width l) : l.Formed (Path.numbers width) width := by
  induction h with
  | new => exact formed_new (Path.numbers_positive width) (Path.numbers_within width)
  | add _ len numbered hb column ih => exact ih.addAny (numbered.constraints_allowed len) hb column
  | addSupported _ len numbered hb column ih =>
    rw [Lattice.addIfMinimalSupported]
    split
    · exact ih
    · exact ih.addAny (numbered.constraints_allowed len) hb column
  | setBound _ premise index hb ih => exact ih.setBound hb
  | markChanged _ premise ih => exact ih.markChanged _
  | takeLowestChanged _ ih => exact ih.takeLowestChanged.1
  | ask _ premise bound index ih => exact ih.isImplied _ _ _
  | markUnsupported _ len numbered ih => exact ih.markUnsupported (numbered.constraints_allowed len)

end Lattice

end MatchingDependencies
