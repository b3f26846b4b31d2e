import MatchingDependencies.Proofs.Arrangement
import MatchingDependencies.Proofs.Dependency.Order
import MatchingDependencies.Proofs.Discovery.Histories

/-!
# A discovery lists in order

Whatever the tables are and whatever the measures answer, the dependencies that a
run returns stand in strictly increasing order, and none is returned twice. The
same is so for the lattice of every state on the way.
-/

set_option autoImplicit false

namespace MatchingDependencies.Discovery

theorem exists_dataset {d : Discovery} {o : Outcome} (ran : d.execute = .ok (some o)) :
    ∃ data, d.dataset = .ok data := by
  rw [execute] at ran
  change d.dataset >>= _ = _ at ran
  cases built : d.dataset with
  | error e => simp [built, bind, Except.bind] at ran
  | ok data => exact ⟨data, rfl⟩

/-- Every lattice that a search builds lists its claims in strictly increasing
order, whatever order they were inserted in, and so does every run. -/
theorem listed_in_order (d : Discovery) :
    (∀ data, d.dataset = .ok data → ∀ s, Search.Reachable (d.setting data) s →
      Dependency.InOrder (Dependency.ofLattice data s.lattice)) ∧
    ∀ o, d.execute = .ok (some o) → Dependency.InOrder o.dependencies := by
  have reached : ∀ data, d.dataset = .ok data → ∀ s, Search.Reachable (d.setting data) s →
      Dependency.InOrder (Dependency.ofLattice data s.lattice) := by
    intro data built s h
    have pos : data.Natural.Positive := Dataset.natural_positive built
    exact (h.ordered pos).inOrder
  refine ⟨reached, fun o ran => ?_⟩
  obtain ⟨data, built⟩ := exists_dataset ran
  rw [execute_eq built] at ran
  obtain ⟨s, found, rfl⟩ := Option.map_eq_some_iff.mp (Except.ok.inj ran)
  exact reached data built s (.run found)

/-! ## Two strangers -/

theorem reachable_strangers :
    Search.Reachable (amongStrangers.setting strangerData) afterStrangers := by
  have pair : [0, 0] ∈ strangerData.pairProfiles := by with_unfolding_all decide
  exact .apply .start pair

/-- The claim about names is the first to be refuted, so the premise that it moves to,
equal cities, is inserted first. Equal names are listed before it. -/
theorem listed_in_order_strangers :
    (Dependency.ofLattice strangerData afterStrangers.lattice).map
        (fun m => (m.premise, m.index, m.bound)) = [([1, 0], 1, 1), ([0, 1], 0, 1)] ∧
      Dependency.InOrder (Dependency.ofLattice strangerData afterStrangers.lattice) ∧
      ∃ o, amongStrangers.execute = .ok (some o) ∧ Dependency.InOrder o.dependencies := by
  obtain ⟨o, ran⟩ := exists_outcome strangers_loaded build_strangers
  have inOrder := listed_in_order amongStrangers
  exact ⟨by with_unfolding_all rfl, inOrder.1 _ build_strangers _ reachable_strangers, o, ran,
    inOrder.2 o ran⟩

end MatchingDependencies.Discovery
