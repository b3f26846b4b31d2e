import MatchingDependencies.Proofs.Dependency.Listing

/-!
# The order of dependencies

Dependencies are ordered by how many column matches they constrain, then by what
they demand, the first column match first, and then by the column match of the
conclusion. However its nodes were inserted, a lattice lists its claims in
strictly increasing order, so nothing is listed twice.
-/

set_option autoImplicit false

namespace MatchingDependencies

open MatchingDependencies.Path (Allowed)

namespace Scores

/-- The order of premises: by how many column matches they constrain, then by
column match and threshold, the first constraint first. -/
def Precedes (a b : Scores) : Prop :=
  a.cardinality < b.cardinality ∨ a.cardinality = b.cardinality ∧
    List.Lex (Prod.Lex (· < ·) (· < ·)) a.constraints b.constraints

theorem isZero_eq_of_rank_eq {s t : Score} (h : s.rank = t.rank) : s.isZero = t.isZero := by
  rw [Bool.eq_iff_iff, Score.isZero_iff, Score.isZero_iff, (Score.rank_eq_iff s t).mp h]

theorem cardinality_eq_of_ranks_eq {a b : Scores} (h : a.ranks = b.ranks) :
    a.cardinality = b.cardinality := by
  induction a generalizing b with
  | nil =>
    rw [List.map_eq_nil_iff.mp h.symm]
  | cons s a ih =>
    cases b with
    | nil => nomatch h
    | cons t b =>
      obtain ⟨first, rest⟩ := List.cons.inj h
      rw [cardinality, cardinality, List.countP_cons, List.countP_cons,
        isZero_eq_of_rank_eq first]
      exact congrArg (· + _) (ih rest)

theorem not_lex_of_ranks_eq {a b : Scores} (h : a.ranks = b.ranks) (first : Nat) :
    ¬List.Lex (Prod.Lex (· < ·) (· < ·)) (a.constraintsFrom first) (b.constraintsFrom first) := by
  induction a generalizing b first with
  | nil =>
    rw [List.map_eq_nil_iff.mp h.symm]
    nofun
  | cons s a ih =>
    cases b with
    | nil => nomatch h
    | cons t b =>
      obtain ⟨level, rest⟩ := List.cons.inj h
      rw [constraintsFrom, constraintsFrom, isZero_eq_of_rank_eq level]
      split
      · exact ih rest (first+1)
      · intro lex
        cases lex with
        | cons tails => exact ih rest (first+1) tails
        | rel less =>
          cases less with
          | left _ _ less => exact Nat.lt_irrefl first less
          | right _ less =>
            have higher := ((Score.lt_iff s t).mp less).1
            rw [(Score.rank_eq_iff s t).mp level] at higher
            exact Int.lt_irrefl _ higher

theorem Precedes.ranks_ne {a b : Scores} (h : a.Precedes b) : a.ranks ≠ b.ranks := by
  intro same
  rcases h with fewer | ⟨-, lex⟩
  · exact Nat.ne_of_lt fewer (cardinality_eq_of_ranks_eq same)
  · exact not_lex_of_ranks_eq same 0 lex

end Scores

theorem Path.Precedes.lex {p q : Path} (h : p.Precedes q)
    (numbers : ∀ x ∈ q, x.2.height < Score.topHeight) :
    List.Lex (Prod.Lex (· < ·) (· < ·)) p q := by
  induction h with
  | nil => exact .nil
  | cons _ ih => exact .cons (ih fun x hx => numbers x (List.mem_cons_of_mem _ hx))
  | @rel x p y q before =>
    obtain ⟨c, t⟩ := x
    obtain ⟨d, s⟩ := y
    rcases before with earlier | ⟨same, less⟩
    · exact .rel (.left t s earlier)
    · obtain rfl : c = d := same
      exact .rel (.right c ((Score.lt_iff t s).mpr ⟨less, numbers _ List.mem_cons_self⟩))

namespace Dependency

/-- The order of dependencies: by premise, then by the column match of the conclusion. -/
def Precedes (a b : Dependency) : Prop :=
  a.premise.Precedes b.premise ∨
    a.premise.constraints = b.premise.constraints ∧ a.index < b.index

/-- Every dependency precedes those behind it, and no two of them have premises of
the same values and conclusions about the same column match. -/
structure InOrder (ms : List Dependency) : Prop where
  ascending : ms.Pairwise Precedes
  distinct : (ms.map fun m => (m.premise.ranks, m.index)).Nodup

theorem Precedes.ne {a b : Dependency} (h : a.Precedes b) :
    (a.premise.ranks, a.index) ≠ (b.premise.ranks, b.index) := by
  intro same
  obtain ⟨ranks, index⟩ := Prod.mk.inj same
  rcases h with precedes | ⟨-, less⟩
  · exact precedes.ranks_ne ranks
  · exact Nat.ne_of_lt less index

theorem inOrder_of_ascending {ms : List Dependency} (h : ms.Pairwise Precedes) : InOrder ms :=
  ⟨h, List.pairwise_map.mpr (h.imp Precedes.ne)⟩

end Dependency

namespace Lattice.Ordered

variable {ok : Allowed} {d : Dataset} {l : Lattice} (h : l.Ordered ok d.width)

include h

theorem proper_of_mem_places {x : Path × Nat} (hx : x ∈ l.places) : x.1.Proper ok 0 := by
  obtain ⟨level, -, hx⟩ := List.mem_flatMap.mp hx
  obtain ⟨e, he, hx⟩ := List.mem_flatMap.mp hx
  obtain ⟨i, -, rfl⟩ := List.mem_map.mp hx
  exact ClaimLattice.proper_of_mem_entries h.branches (List.mem_filter.mp he).1

theorem places_ofLattice : (Dependency.ofLattice d l).map (fun m => (m.premise, m.index)) =
    l.places.map fun x => (x.1.premise d.width, x.2) := by
  have premise : ∀ v i b, (⟨Dependency.conditionsOf d v, i, b⟩ : Dependency).premise = v :=
    fun _ _ _ => Dependency.premise_of_conditions rfl
  simp only [h.ofLattice_eq, places, List.map_flatMap, List.map_map, Function.comp_def, premise]

theorem precedes_of_sooner {x y : Path × Nat} (hx : x ∈ l.places) (hy : y ∈ l.places)
    (sooner : Sooner x y) :
    Scores.Precedes (x.1.premise d.width) (y.1.premise d.width) ∨
      Scores.constraints (x.1.premise d.width) = Scores.constraints (y.1.premise d.width) ∧
        x.2 < y.2 := by
  have proper := h.proper_of_mem_places hy
  have nonzero := h.positive.nonzero
  have pathX := (h.proper_of_mem_places hx).constraints_premise_of_nonzero nonzero h.within
  have pathY := proper.constraints_premise_of_nonzero nonzero h.within
  rw [Scores.Precedes, ← Scores.length_constraints, ← Scores.length_constraints, pathX, pathY]
  rcases sooner with fewer | ⟨same, precedes | ⟨eq, less⟩⟩
  · exact .inl (.inl fewer)
  · refine .inl (.inr ⟨same, Path.Precedes.lex precedes fun z hz => ?_⟩)
    exact (h.positive _ _ (proper.allowed z hz)).2
  · exact .inr ⟨eq, less⟩

theorem inOrder : Dependency.InOrder (Dependency.ofLattice d l) := by
  have sorted : ((Dependency.ofLattice d l).map fun m => (m.premise, m.index)).Pairwise
      fun a b => a.1.Precedes b.1 ∨ a.1.constraints = b.1.constraints ∧ a.2 < b.2 := by
    rw [h.places_ofLattice, List.pairwise_map]
    exact (places_sorted h.branches).imp_of_mem h.precedes_of_sooner
  rw [List.pairwise_map] at sorted
  exact Dependency.inOrder_of_ascending sorted

end Lattice.Ordered

end MatchingDependencies
