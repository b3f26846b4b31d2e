import MatchingDependencies.Dependency
import MatchingDependencies.Proofs.Ascending
import MatchingDependencies.Proofs.Best

/-!
# The listed dependencies

A lattice lists its claims of supported premises level by level, in trie order
and by column match. So the list is in a strict order of premises and column
matches, and every claim stands in it once.
-/

set_option autoImplicit false

namespace MatchingDependencies

open MatchingDependencies.Path (Allowed Precedes)

theorem zipIdx_eq_map_range {α : Type} (xs : List α) (d : α) :
    xs.zipIdx = (List.range xs.length).map fun i => (xs.getD i d, i) := by
  apply List.ext_getElem?
  intro i
  rw [List.getElem?_zipIdx, List.getElem?_map]
  by_cases hi : i < xs.length
  · simp [hi]
  · simp [hi]

theorem Dependency.premise_of_conditions {m : Dependency} {d : Dataset} {premise : Scores}
    (h : m.conditions = conditionsOf d premise) : m.premise = premise := by
  rw [Dependency.premise, h, conditionsOf, List.map_map]
  exact List.zipIdx_map_fst 0 _

namespace Lattice

variable {ok : Allowed} {width : Nat} {q : Setting} {l : Lattice}

def listed (l : Lattice) (level : Nat) : List (Path × Node) :=
  l.claims.entries.filter fun e =>
    e.1.length = level && e.2.claimsAny && !l.isUnsupported e.1

def claimed (n : Node) : List Nat :=
  (List.range n.bounds.size).filter fun i => !(n.bound i).isZero

/-- Where something is claimed, in the order of the list. -/
def places (l : Lattice) : List (Path × Nat) :=
  (List.range (l.maxLevel+1)).flatMap fun level =>
    (l.listed level).flatMap fun e => (claimed e.2).map fun i => (e.1, i)

/-- The order of the list: by level, by path and by column match. -/
def Sooner (x y : Path × Nat) : Prop :=
  x.1.length < y.1.length ∨ x.1.length = y.1.length ∧
    (Precedes x.1 y.1 ∨ x.1 = y.1 ∧ x.2 < y.2)

theorem Sooner.asymm {x y : Path × Nat} (h : Sooner x y) : ¬Sooner y x := by
  rintro (longer | ⟨same', rest'⟩)
  · rcases h with shorter | ⟨same, -⟩ <;> omega
  · rcases h with shorter | ⟨same, precedes | ⟨eq, less⟩⟩
    · omega
    · rcases rest' with precedes' | ⟨eq, -⟩
      · exact precedes.asymm precedes'
      · rw [eq] at precedes
        exact precedes.asymm precedes
    · rcases rest' with precedes' | ⟨-, less'⟩
      · rw [eq] at precedes'
        exact precedes'.asymm precedes'
      · omega

theorem Sound.mem_listed_iff (hl : l.Sound q) {level : Nat} (e : Path × Node) :
    e ∈ l.listed level ↔ e ∈ l.claims.entries ∧ e.1.length = level ∧ e.2.claimsAny = true ∧
      ¬l.Dropped e.1 := by
  rw [listed, List.mem_filter]
  apply and_congr_right
  intro he
  rw [Bool.and_eq_true, Bool.and_eq_true, decide_eq_true_iff, Bool.not_eq_true', ← Bool.not_eq_true,
    hl.isUnsupported_iff (hl.claims.mem_entries he), and_assoc]

theorem mem_claimed_iff (n : Node) (i : Nat) : i ∈ claimed n ↔ (n.bound i).isZero = false := by
  rw [claimed, List.mem_filter, List.mem_range, Bool.not_eq_true']
  apply and_iff_right_of_imp
  intro nonzero
  by_cases lt : i < n.bounds.size
  · exact lt
  · rw [n.bound_of_size_le (by omega)] at nonzero
    exact absurd nonzero (by decide)

theorem length_of_mem_listed {level : Nat} {e : Path × Node} (he : e ∈ l.listed level) :
    e.1.length = level := by
  have test := (List.mem_filter.mp he).2
  rw [Bool.and_eq_true, Bool.and_eq_true, decide_eq_true_iff] at test
  exact test.1.1

theorem places_sorted (hb : l.claims.branches.Proper ok 0) : l.places.Pairwise Sooner := by
  have lengths : ∀ level,
      ∀ x ∈ (l.listed level).flatMap (fun e => (claimed e.2).map fun i => (e.1, i)),
      x.1.length = level := by
    intro level x hx
    obtain ⟨e, he, hx⟩ := List.mem_flatMap.mp hx
    obtain ⟨i, -, rfl⟩ := List.mem_map.mp hx
    exact length_of_mem_listed he
  rw [places, List.pairwise_flatMap]
  refine ⟨fun level _ => ?_, List.pairwise_lt_range.imp fun less x hx y hy => .inl ?_⟩
  · rw [List.pairwise_flatMap]
    constructor
    · intro e _
      refine List.pairwise_map.mpr ((List.pairwise_lt_range.filter _).imp fun less => ?_)
      exact .inr ⟨rfl, .inr ⟨rfl, less⟩⟩
    · have sorted := ClaimLattice.entries_sorted hb
      refine (sorted.filter _).imp_of_mem fun he hf precedes x hx y hy => ?_
      obtain ⟨i, -, rfl⟩ := List.mem_map.mp hx
      obtain ⟨j, -, rfl⟩ := List.mem_map.mp hy
      have same := (length_of_mem_listed he).trans (length_of_mem_listed hf).symm
      exact .inr ⟨same, .inl precedes⟩
  · rw [lengths _ x hx, lengths _ y hy]
    exact less

theorem Sound.places_sorted (hl : l.Sound q) : l.places.Pairwise Sooner :=
  Lattice.places_sorted hl.claims.branches

theorem Sound.getElem_places_ne (hl : l.Sound q) {j k : Nat} (hj : j < l.places.length)
    (hk : k < l.places.length) (differ : j ≠ k) : l.places[j] ≠ l.places[k] := by
  have sorted := List.pairwise_iff_getElem.mp hl.places_sorted
  intro eq
  rcases Nat.lt_or_gt_of_ne differ with less | greater
  · have sooner := sorted j k hj hk less
    rw [eq] at sooner
    exact sooner.asymm sooner
  · have sooner := sorted k j hk hj greater
    rw [eq] at sooner
    exact sooner.asymm sooner

theorem Sound.mem_places_iff (hl : l.Sound q) (p : Path) (i : Nat) :
    (p, i) ∈ l.places ↔ 0 < (l.bound p i).height ∧ ¬l.Dropped p := by
  have nonneg := hl.bound_nonneg p i
  simp only [places, List.mem_flatMap, List.mem_map, List.mem_range]
  constructor
  · rintro ⟨level, -, e, he, j, hj, eq⟩
    obtain ⟨rfl, rfl⟩ := Prod.mk.inj eq
    obtain ⟨entry, -, -, listed⟩ := (hl.mem_listed_iff e).mp he
    have bound : l.bound e.1 j = e.2.bound j := hl.claims.bound_of_mem entry j
    rw [mem_claimed_iff, ← Bool.not_eq_true, Score.isZero_iff, ← bound] at hj
    exact ⟨by omega, listed⟩
  · rintro ⟨positive, listed⟩
    obtain ⟨n, entry, bound, -⟩ := hl.claims.exists_of_bound positive
    have level := hl.claims.levels _ entry
    rw [hl.levelOf_eq] at level
    have nonzero : (n.bound i).isZero = false := by
      rw [bound, ← Bool.not_eq_true, Score.isZero_iff]
      change ¬(l.bound p i).height = 0
      omega
    exact ⟨p.length, Nat.lt_succ_of_le level, (p, n),
      (hl.mem_listed_iff _).mpr ⟨entry, rfl, n.claimsAny_iff.mpr ⟨i, nonzero⟩, listed⟩, i,
      (mem_claimed_iff n i).mpr nonzero, rfl⟩

def dependency (d : Dataset) (l : Lattice) (x : Path × Nat) : Dependency :=
  ⟨Dependency.conditionsOf d (x.1.premise d.width), x.2, l.bound x.1 x.2⟩

@[simp] theorem premise_dependency (d : Dataset) (l : Lattice) (x : Path × Nat) :
    (l.dependency d x).premise = x.1.premise d.width :=
  Dependency.premise_of_conditions rfl

theorem Ordered.atLevel_eq (h : l.Ordered ok width) (level : Nat) :
    l.atLevel level = (l.listed level).map fun e => (e.1.premise width, e.2) := by
  rw [Lattice.atLevel, h.atLevel_claims, listed, List.filter_map, List.filter_filter]
  refine congrArg _ (List.filter_congr fun e he => ?_)
  simp only [Function.comp_apply]
  rw [h.constraints_premise he, Bool.and_comm]

theorem ofNode_eq (d : Dataset) (premise : Scores) (n : Node) :
    Dependency.ofNode d premise n =
      (claimed n).map fun i => ⟨Dependency.conditionsOf d premise, i, n.bound i⟩ := by
  rw [Dependency.ofNode, zipIdx_eq_map_range _ 0, List.filter_map, List.map_map, claimed,
    Array.length_toList]
  have bound : ∀ i, n.bounds.toList.getD i 0 = n.bound i := fun i => by
    rw [Node.bound, Array.getD_eq_getD_getElem?, List.getD_eq_getElem?_getD, Array.getElem?_toList]
  simp only [Function.comp_def, bound]

theorem Ordered.ofLattice_eq {d : Dataset} (h : l.Ordered ok d.width) : Dependency.ofLattice d l =
    (List.range (l.maxLevel+1)).flatMap fun level => (l.listed level).flatMap fun e =>
      (claimed e.2).map fun i =>
        ⟨Dependency.conditionsOf d (e.1.premise d.width), i, e.2.bound i⟩ := by
  simp only [Dependency.ofLattice, h.atLevel_eq, List.flatMap_map, ofNode_eq]

theorem Sound.ofLattice_eq (hl : l.Sound q) :
    Dependency.ofLattice q.data l = l.places.map (l.dependency q.data) := by
  rw [hl.formed.ordered.ofLattice_eq, places, List.map_flatMap]
  refine congrArg List.flatten (List.map_congr_left fun level _ => ?_)
  rw [List.map_flatMap]
  refine congrArg List.flatten (List.map_congr_left fun e he => ?_)
  have entry := ((hl.mem_listed_iff e).mp he).1
  rw [List.map_map]
  apply List.map_congr_left
  intro i _
  have bound : l.bound e.1 i = e.2.bound i := hl.claims.bound_of_mem entry i
  rw [Function.comp_apply, dependency, bound]

end Lattice

end MatchingDependencies
