import MatchingDependencies.Proofs.Dependency.Listing

/-!
# Valid claims are left alone

Where every claim is valid, validating a listed node again, with all that it
claims, finds nothing to change.
-/

set_option autoImplicit false

namespace MatchingDependencies

open MatchingDependencies.Path (Allowed)
open MatchingDependencies.Lattice (claimed)

theorem Settles.eq_old {floor old new : Int} {seen : Int → Prop} (h : Settles floor old new seen)
    (above : floor < old) (reached : ∀ s, seen s → old ≤ s) : new = old := by
  rcases h with ⟨-, low | ⟨s, hs, low⟩⟩ | ⟨-, below, -, same | attained⟩
  · omega
  · have := reached s hs
    omega
  · exact same
  · have := reached new attained
    omega

theorem Lattice.Formed.mem_claimed_iff {ok : Allowed} {width : Nat} {l : Lattice} {p : Path}
    {n : Node} (hl : l.Formed ok width) (found : l.find? p = some n) (i : Nat) :
    i ∈ claimed n ↔ 0 < (l.bound p i).height := by
  have bound : l.bound p i = n.bound i := ClaimLattice.bound_of_find? found i
  have low := hl.bound_nonneg p i
  rw [Lattice.mem_claimed_iff, ← Bool.not_eq_true, Score.isZero_iff, ← bound]
  omega

namespace Validation

variable {ok : Allowed} {q : Setting} {l : Lattice} {p : Path}

theorem floorHeight_lt (hl : l.Formed ok q.data.width) (hp : p.Proper ok 0) {i : Nat}
    (claimed : 0 < (l.bound p i).height) (valid : Traversal.Valid q l p i) :
    floorHeight l (p.premise q.data.width) i < (l.bound p i).height := by
  have pos := hl.claims.positive
  have demand := hp.demand_premise pos hl.within i
  have constraints := hp.constraints_premise pos hl.within
  have above := valid.above
  have inherited : ((l.inheritedBounds (p.premise q.data.width)).score i).height <
      (l.bound p i).height := by
    have premise := hp.premise_numbered pos hl.within
    rcases hl.claims.inherited_attained premise i with zero | ⟨g, reaches, differ, eq⟩
    · rw [show (l.inheritedBounds (p.premise q.data.width)).score i = 0 from zero,
        Score.height_zero]
      exact claimed
    · rw [show (l.inheritedBounds (p.premise q.data.width)).score i = l.bound g i from eq]
      have general := (Scores.generalizes_constraints_iff (p.premise q.data.width) g).mpr reaches
      rw [constraints] at general differ
      exact valid.least g general differ
  rw [floorHeight]
  omega

theorem run_of_valid (hd : q.data.Sound) (hl : l.Formed ok q.data.width) {n : Node}
    (found : l.find? p = some n) (some : claimed n ≠ [])
    (valid : ∀ i, 0 < (l.bound p i).height → Traversal.Valid q l p i) :
    (run q.data q.minSupport l ⟨p.premise q.data.width, n.number, claimed n⟩).isUnsupported =
        false ∧
      (run q.data q.minSupport l ⟨p.premise q.data.width, n.number, claimed n⟩).corrections =
        [] := by
  have hp : p.Proper ok 0 := hl.claims.mem_entries (hl.claims.find?_eq_some_iff.mp found)
  have path : Candidate.path ⟨p.premise q.data.width, n.number, claimed n⟩ = p :=
    hp.constraints_premise hl.claims.positive hl.within
  have member := hl.mem_claimed_iff found
  have live : Traversal.Live ok q.data.width l l ⟨p.premise q.data.width, n.number, claimed n⟩ :=
    ⟨by rwa [path], by rw [path], by rw [path, found]; rfl,
      fun i hi => by rw [path]; exact (member i).mp hi, fun _ _ => rfl⟩
  obtain ⟨sound, changes, -⟩ := live.validated hd hl some
  generalize run q.data q.minSupport l _ = v at sound changes ⊢
  obtain ⟨i, hi⟩ := List.exists_mem_of_ne_nil _ some
  have supported := (valid i ((member i).mp hi)).supported
  refine ⟨?_, List.eq_nil_iff_forall_not_mem.mpr fun k hk => ?_⟩
  · rw [← Bool.not_eq_true, live.isUnsupported_iff sound, path]
    exact fun few => few supported
  · obtain ⟨verdict, eq, all⟩ := live.exists_verdict hd sound hl
    obtain ⟨j, hj, verdicts⟩ := List.mem_filterMap.mp (eq ▸ hk)
    obtain ⟨facts, settles⟩ := all j hj
    obtain ⟨-, old, unit⟩ := facts k verdicts
    have positive := (member j).mp hj
    have here := valid j positive
    rw [verdicts, path] at settles
    have same : k.newBound.height = (l.bound p j).height := by
      refine settles.eq_old (floorHeight_lt hl hp positive here) ?_
      rintro s ⟨w, shown, rfl⟩
      exact here.holds w shown
    have top := Score.unitHeight_lt_top
    have most := hl.bound_le p j
    -- A correction names another bound than the old one.
    have differ := changes k hk
    rw [← Bool.not_eq_true, Score.same_iff, old, path] at differ
    omega

end Validation

/-- Where all claims are valid, validation of any listed node is silent. -/
theorem Traversal.AllValid.silent {ok : Allowed} {q : Setting} {l : Lattice} (hd : q.data.Sound)
    (hl : l.Formed ok q.data.width) (h : AllValid q l) (level : Nat) :
    ∀ e ∈ l.atLevel level,
      (Validation.run q.data q.minSupport l ⟨e.1, e.2.number, claimed e.2⟩).isUnsupported =
          false ∧
        (Validation.run q.data q.minSupport l ⟨e.1, e.2.number, claimed e.2⟩).corrections = [] := by
  rintro ⟨premise, n⟩ he
  obtain ⟨p, entry, -, claims, listed, rfl⟩ := (hl.mem_atLevel_iff level premise n).mp he
  have found : l.find? p = some n := hl.claims.find?_eq_some_iff.mpr entry
  obtain ⟨i, nonzero⟩ := n.claimsAny_iff.mp claims
  have some : claimed n ≠ [] := List.ne_nil_of_mem ((Lattice.mem_claimed_iff n i).mpr nonzero)
  exact Validation.run_of_valid hd hl found some fun j positive =>
    (h p j positive).resolve_left listed

end MatchingDependencies
