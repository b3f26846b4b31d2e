import Mathlib.Logic.ExistsUnique
import MatchingDependencies.Proofs.Lattice.Operations

/-!
# Exact listings

Whatever was done to a lattice of claims, and whatever bounds were written into
its nodes, its listings leave nothing out and list nothing twice: what a record
pair violates, what stands at a level under any cost of constraints, and the
greatest bounds of the strict generalizations of a premise are read off the
nodes that can be found.
-/

set_option autoImplicit false

namespace MatchingDependencies.ClaimLattice

open MatchingDependencies.Path (Precedes similarities_graded similarities_positive
  similarities_within)

/-- A listing has exactly the nodes that are selected, in trie order and each of
them once, with premises under which they are found. -/
structure Lists (width : Nat) (l : ClaimLattice) (selects : Scores → Node → Prop)
    (listing : List (Scores × Node)) : Prop where
  sound : ∀ e ∈ listing,
    e.1.IsPremise width ∧ l.find? e.1.constraints = some e.2 ∧ selects e.1 e.2
  complete : ∀ (g : Scores) (n : Node), g.IsPremise width → l.find? g.constraints = some n →
    selects g n → ∃ e ∈ listing, e.1.same g = true ∧ e.2 = n
  ordered : listing.Pairwise fun e f => Precedes e.1.constraints f.1.constraints
  once : (listing.map (·.2.number)).Nodup

/-- For every column match the greatest bound of a node whose premise strictly
generalizes a premise, or zero if none is above it. What stands at the premise
itself has no influence. -/
structure Inherits (width : Nat) (l : ClaimLattice) (premise bounds : Scores) : Prop where
  length : bounds.length = width
  upper : ∀ (g : Scores) (n : Node), g.IsPremise width → l.find? g.constraints = some n →
    g.StrictlyGeneralizes premise → ∀ i, (n.bound i).isNumber = true →
      n.bound i ≤ bounds.score i
  attained : ∀ i, bounds.score i = 0 ∨ 0 < bounds.score i ∧ ∃ (g : Scores) (n : Node),
    g.IsPremise width ∧ l.find? g.constraints = some n ∧ g.StrictlyGeneralizes premise ∧
      bounds.score i = n.bound i
  apart : ∀ f : Node → Node, (l.modify premise.constraints f).inheritedBounds premise = bounds

variable {width : Nat} {l : ClaimLattice}

namespace Arranged

variable (h : Arranged width l)

include h

theorem isPremise {e : Path × Node} (he : e ∈ l.entries) :
    (e.1.premise width).IsPremise width ∧ (e.1.premise width).constraints = e.1 := by
  have proper := proper_of_mem_entries h.branches he
  have pos := similarities_positive width
  have within := similarities_within width
  exact ⟨proper.isPremise (similarities_graded width) within, proper.constraints_premise pos within⟩

theorem find?_iff {p : Path} {n : Node} : l.find? p = some n ↔ (p, n) ∈ l.entries :=
  find?_eq_some_iff (similarities_positive width).nonzero h.branches

theorem lists (test : Path × Node → Bool) {selects : Scores → Node → Prop}
    (selected : ∀ (g : Scores) (n : Node), g.IsPremise width → (g.constraints, n) ∈ l.entries →
      (test (g.constraints, n) = true ↔ selects g n)) :
    l.Lists width selects
      ((l.entries.filter test).map fun e => (e.1.premise l.width, e.2)) := by
  rw [h.columns]
  constructor
  · intro x hx
    obtain ⟨e, he, rfl⟩ := List.mem_map.mp hx
    obtain ⟨entry, test⟩ := List.mem_filter.mp he
    obtain ⟨premise, path⟩ := h.isPremise entry
    refine ⟨premise, ?_, ?_⟩
    · rw [path]
      exact h.find?_iff.mpr entry
    · apply (selected _ e.2 premise _).mp
      · rw [path]
        exact test
      · rw [path]
        exact entry
  · intro g n hg found select
    have entry := h.find?_iff.mp found
    obtain ⟨premise, path⟩ := h.isPremise entry
    have mem := List.mem_filter.mpr ⟨entry, (selected g n hg entry).mpr select⟩
    exact ⟨_, List.mem_map_of_mem mem, (premise.same_iff hg).mpr path, rfl⟩
  · rw [List.pairwise_map]
    refine ((entries_sorted h.branches).filter test).imp_of_mem fun he hf precedes => ?_
    rw [(h.isPremise (List.mem_filter.mp he).1).2, (h.isPremise (List.mem_filter.mp hf).1).2]
    exact precedes
  · rw [List.map_map]
    exact h.numbers.sublist (List.filter_sublist.map _)

end Arranged

/-! ## Violated claims -/

variable {cost : LevelCost} {ops : List Operation}

/-- A record pair violates the nodes whose premises it satisfies and of which it
misses a bound. -/
theorem violated_exact (fits : ∀ o ∈ ops, o.Fits width) {v : Scores} (hv : v.IsPremise width) :
    ((ClaimLattice.new width cost).performAll ops).Lists width
      (fun g n => g.generalizes v = true ∧ ∃ i, i < width ∧ v.score i < n.bound i)
      (((ClaimLattice.new width cost).performAll ops).violated v) := by
  have h := (arranged_new width cost).performAll fits
  rw [violated_eq]
  apply h.lists
  intro g n hg entry
  have proper := proper_of_mem_entries h.branches entry
  rw [Bool.and_eq_true, allMet_meets_iff (similarities_positive width) hv.numbered proper,
    ← Scores.generalizes_constraints_iff, ← hg.generalizes_iff hv, n.violatedBy_iff hv.numbered,
    hv.length]

theorem violated_exact_halfway :
    let half : Score := ⟨0x3FE0000000000000⟩
    let ops : List Operation := [.setBound [0, 0] 0 0, .setBound [0, 0] 1 0,
      .add [half, 0] 1 1, .add [half, half] 1 0]
    let l := (ClaimLattice.new 2 unitCost).performAll ops
    (∀ o ∈ ops, o.Fits 2) ∧ Scores.IsPremise 2 [half, 0] ∧
      (l.violated [half, 0]).map (·.1) = [[half, 0]] ∧
      l.Lists 2 (fun g n => g.generalizes [half, 0] = true ∧
        ∃ i, i < 2 ∧ Scores.score [half, 0] i < n.bound i) (l.violated [half, 0]) := by
  intro half ops l
  have fits : ∀ o ∈ ops, o.Fits 2 := by decide
  have premise : Scores.IsPremise 2 [half, 0] := by decide
  exact ⟨fits, premise, by decide, violated_exact fits premise⟩

/-! ## Levels -/

theorem Arranged.inherits (h : Arranged width l) {v : Scores} (hv : v.IsPremise width) :
    l.Inherits width v (l.inheritedBounds v) := by
  have pos := similarities_positive width
  have strict : ∀ {g : Scores}, g.IsPremise width → (g.StrictlyGeneralizes v ↔
      v.Reaches g.constraints ∧ g.constraints ≠ v.constraints) := fun hg => by
    rw [hg.strictlyGeneralizes_iff hv, Scores.generalizes_constraints_iff]
  -- The ancestors are the nodes of the strict generalizations.
  have mem := mem_ancestors_iff pos h.branches hv.numbered
  obtain ⟨length, each⟩ := score_inheritedBounds pos h.branches
    (fun e he => (h.sizes e he).trans h.columns.symm) v
  constructor
  · exact length.trans h.columns
  · intro g n hg found general i number
    have member := (mem n).mpr ⟨_, h.find?_iff.mp found, (strict hg).mp general⟩
    obtain ⟨stays, least, -⟩ := foldl_raise ((l.ancestors v).map (·.bound i)) 0 zero_number
    rw [Score.le_iff, each]
    exact ⟨least _ (List.mem_map_of_mem member) ((Score.isNumber_iff _).mp number), stays⟩
  · intro i
    obtain ⟨stays, -, attained⟩ := foldl_raise ((l.ancestors v).map (·.bound i)) 0 zero_number
    rw [each]
    rcases attained with zero | ⟨above, member⟩
    · exact .inl zero
    · obtain ⟨n, hn, eq⟩ := List.mem_map.mp member
      obtain ⟨p, entry, reaches, differ⟩ := (mem n).mp hn
      obtain ⟨premise, path⟩ := h.isPremise entry
      refine .inr ⟨(Score.lt_iff _ _).mpr ⟨above, stays⟩, p.premise width, n, premise, ?_, ?_, ?_⟩
      · rw [path]
        exact h.find?_iff.mpr entry
      · rw [strict premise, path]
        exact ⟨reaches, differ⟩
      · exact eq.symm
  · intro f
    rw [inheritedBounds, inheritedBounds, width_modify, ancestors_modify pos h.branches]

/-- The inherited bounds of any premise, whether or not it has a node. -/
theorem performAll_inherits (fits : ∀ o ∈ ops, o.Fits width) {v : Scores}
    (hv : v.IsPremise width) :
    ((ClaimLattice.new width cost).performAll ops).Inherits width v
      (((ClaimLattice.new width cost).performAll ops).inheritedBounds v) :=
  ((arranged_new width cost).performAll fits).inherits hv

theorem performAll_inherits_beside :
    let half : Score := ⟨0x3FE0000000000000⟩
    let ops : List Operation := [.setBound [0, 0] 0 0, .setBound [0, 0] 1 0,
      .add [half, 0] half 1, .add [1, 1] 1 0]
    let l := (ClaimLattice.new 2 unitCost).performAll ops
    (∀ o ∈ ops, o.Fits 2) ∧ Scores.IsPremise 2 [1, half] ∧
      (l.find? (Scores.constraints [1, half])).isNone = true ∧
      l.Inherits 2 [1, half] (l.inheritedBounds [1, half]) := by
  intro half ops l
  have fits : ∀ o ∈ ops, o.Fits 2 := by decide
  have premise : Scores.IsPremise 2 [1, half] := by decide
  exact ⟨fits, premise, by decide, performAll_inherits fits premise⟩

end MatchingDependencies.ClaimLattice
