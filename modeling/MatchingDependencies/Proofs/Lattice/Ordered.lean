import MatchingDependencies.Lattice
import MatchingDependencies.Proofs.Lattice.Additions
import MatchingDependencies.Proofs.Lattice.Listings

/-!
# The order of a lattice

However nodes are inserted, they stand in proper paths, and every constraint is
one level. This is all that the order of a listing depends on. Nothing is said of
bounds and marks, so it does not matter which scores are claimed and which
premises are marked.
-/

set_option autoImplicit false

namespace MatchingDependencies.Lattice

open MatchingDependencies.Path (Allowed)

structure Ordered (ok : Allowed) (width : Nat) (l : Lattice) : Prop where
  positive : ok.Positive
  within : ok.Within width
  columns : l.claims.width = width
  cost : l.claims.cost = ClaimLattice.unitCost
  branches : l.claims.branches.Proper ok 0

variable {ok : Allowed} {width : Nat} {l : Lattice} {p : Path}

theorem ordered_new (pos : ok.Positive) (within : ok.Within width) :
    (Lattice.new width).Ordered ok width :=
  ⟨pos, within, rfl, rfl, trivial⟩

namespace Ordered

variable (h : l.Ordered ok width)

include h

/-! ## What operations keep -/

theorem of_claims {l' : Lattice} (hw : l'.claims.width = l.claims.width)
    (hc : l'.claims.cost = l.claims.cost) (hb : l'.claims.branches.Proper ok 0) :
    l'.Ordered ok width :=
  ⟨h.positive, h.within, hw.trans h.columns, hc.trans h.cost, hb⟩

theorem modify {l' : Lattice} (p : Path) (f : Node → Node)
    (changed : l'.claims = l.claims.modify p f) : l'.Ordered ok width :=
  h.of_claims (changed ▸ ClaimLattice.width_modify ..) (changed ▸ ClaimLattice.cost_modify ..)
    (changed ▸ ClaimLattice.proper_modify h.branches p f)

theorem setBound (p : Path) (i : Nat) (b : Score) : (l.setBound p i b).Ordered ok width :=
  h.modify p (Node.withBound i b) rfl

theorem markUnsupported (p : Path) : (l.markUnsupported p).Ordered ok width :=
  h.modify p (fun node => { node with bounds := node.bounds.map fun _ => 0 }) rfl

theorem markChanged (p : Path) : (l.markChanged p).Ordered ok width :=
  h.of_claims rfl rfl h.branches

theorem isImplied (p : Path) (b : Score) (i : Nat) : (l.isImplied p b i).2.Ordered ok width :=
  h.of_claims rfl rfl h.branches

theorem takeLowestChanged : l.takeLowestChanged.2.Ordered ok width :=
  h.of_claims rfl rfl h.branches

theorem addIfMinimal (hp : p.Proper ok 0) (b : Score) (i : Nat) :
    (l.addIfMinimal p b i).2.Ordered ok width :=
  have frame := l.claims.cost_addIfMinimal p b i
  h.of_claims frame.1 frame.2 (ClaimLattice.proper_addIfMinimal h.branches hp b i)

theorem addIfMinimalSupported (hp : p.Proper ok 0) (b : Score) (i : Nat) :
    (l.addIfMinimalSupported p b i).2.Ordered ok width := by
  rw [Lattice.addIfMinimalSupported]
  split
  · exact h
  · exact h.addIfMinimal hp b i

/-! ## What is listed -/

theorem levelOf_eq (p : Path) : l.claims.levelOf p = p.length := by
  rw [ClaimLattice.levelOf, h.cost]
  induction p with
  | nil => rfl
  | cons x p ih =>
    rw [sumOver_cons, ih, List.length_cons, Nat.add_comm]
    rfl

theorem constraints_premise {e : Path × Node} (he : e ∈ l.claims.entries) :
    (e.1.premise width).constraints = e.1 :=
  (ClaimLattice.proper_of_mem_entries h.branches he).constraints_premise_of_nonzero
    h.positive.nonzero h.within

theorem atLevel_claims (level : Nat) : l.claims.atLevel level =
    (l.claims.entries.filter fun e => e.1.length = level && e.2.claimsAny).map
      fun e => (e.1.premise width, e.2) := by
  have costs : ∀ c t, 0 < l.claims.cost c t := fun _ _ => h.cost ▸ Nat.one_pos
  simp only [ClaimLattice.atLevel_eq costs, h.levelOf_eq, h.columns]

theorem proper_of_mem_atLevel {level : Nat} {e : Scores × Node} (he : e ∈ l.atLevel level) :
    e.1.constraints.Proper ok 0 := by
  have listed := (List.mem_filter.mp he).1
  rw [h.atLevel_claims, List.mem_map] at listed
  obtain ⟨x, hx, rfl⟩ := listed
  have entry := (List.mem_filter.mp hx).1
  rw [h.constraints_premise entry]
  exact ClaimLattice.proper_of_mem_entries h.branches entry

theorem proper_of_mem_violated {v : Scores} {e : Scores × Node} (he : e ∈ l.violated v) :
    e.1.constraints.Proper ok 0 := by
  rw [Lattice.violated, ClaimLattice.violated_eq, h.columns, List.mem_map] at he
  obtain ⟨x, hx, rfl⟩ := he
  have entry := (List.mem_filter.mp hx).1
  rw [h.constraints_premise entry]
  exact ClaimLattice.proper_of_mem_entries h.branches entry

end Ordered

end MatchingDependencies.Lattice
