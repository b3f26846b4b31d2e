import MatchingDependencies.Proofs.Admission
import MatchingDependencies.Proofs.Discovery.Outcome

/-!
# What a discovery guarantees

The data admit every dependency that a discovery lists, and every dependency
that they admit follows from a listed one. No listed dependency follows from
another, and every listed bound is the least similarity that occurs.
-/

set_option autoImplicit false

namespace MatchingDependencies

namespace Dataset

/-- The bound is the least similarity of the pairs that satisfy the premise, or
one if there are none. -/
structure Tight (d : Dataset) (premise : Scores) (index : Nat) (bound : Score) : Prop where
  least : ∀ l r, l < d.leftCount → r < d.rightCount →
    (d.pairProfile (l, r)).satisfies premise = true → bound ≤ (d.pairProfile (l, r)).score index
  attained : (∃ l r, l < d.leftCount ∧ r < d.rightCount ∧
      (d.pairProfile (l, r)).satisfies premise = true ∧
      (d.pairProfile (l, r)).score index = bound) ∨
    (∀ l r, l < d.leftCount → r < d.rightCount →
      (d.pairProfile (l, r)).satisfies premise = false) ∧ bound = 1

end Dataset

namespace Setting.Best

variable {q : Setting} {p : Path} {index : Nat} {bound : Score}

theorem tight (best : q.Best p index bound.height) (hd : q.data.Sound)
    (unit : ∀ v ∈ q.data.pairProfiles, v.InUnit) (threshold : bound.IsThreshold) :
    q.data.Tight (p.premise q.data.width) index bound := by
  have proper := best.admissible.proper
  refine ⟨(best.admissible.admits hd).holds, ?_⟩
  rcases best.attained unit with ⟨v, ⟨hv, reaches⟩, eq⟩ | ⟨none, eq⟩
  · obtain ⟨l, r, hl, hr, rfl⟩ := Dataset.mem_pairProfiles_iff.mp hv
    exact .inl ⟨l, r, hl, hr, (hd.satisfies_premise_iff proper hv).mpr reaches, threshold.ext eq⟩
  · refine .inr ⟨fun l r hl hr => Bool.eq_false_iff.mpr fun satisfied => ?_, ?_⟩
    · have hv := Dataset.mem_pairProfiles_iff.mpr ⟨l, r, hl, hr, rfl⟩
      exact none _ ⟨hv, (hd.satisfies_premise_iff proper hv).mp satisfied⟩
    · rw [← Score.height_one] at eq
      exact (threshold.ext eq.symm).symm

end Setting.Best

namespace Discovery

variable {d : Discovery} {data : Dataset} {o : Outcome}

/-- The data admit what is listed. -/
theorem listed_admitted (loaded : d.tables.Loaded) (built : d.dataset = .ok data)
    (ran : d.execute = .ok (some o)) :
    ∀ m ∈ o.dependencies, (d.setting data).Admits m.premise m.index m.bound := by
  intro m hm
  have hd := sound_dataset loaded built
  obtain ⟨p, premise, -, best⟩ := exists_best loaded built ran hm
  rw [premise]
  exact best.admissible.admits hd

theorem listed_admitted_strangers : ∃ o, amongStrangers.execute = .ok (some o) ∧
    o.dependencies.map (fun m => (m.premise, m.index, m.bound)) =
      [([1, 0], 1, 1), ([0, 1], 0, 1)] ∧
    ∀ m ∈ o.dependencies,
      (amongStrangers.setting strangerData).Admits m.premise m.index m.bound := by
  obtain ⟨o, ran, listed⟩ := listed_strangers
  exact ⟨o, ran, listed, listed_admitted strangers_loaded build_strangers ran⟩

/-- No claim that the data admit is ever lost, and so every dependency that they
admit follows from a listed one. -/
theorem admitted_covered (loaded : d.tables.Loaded) (built : d.dataset = .ok data)
    {premise : Scores} {index : Nat} {bound : Score}
    (admitted : (d.setting data).Admits premise index bound) :
    (∀ s, Search.Reachable (d.setting data) s →
      (s.lattice.isImplied premise.constraints bound index).1 = true) ∧
    ∃ o, d.execute = .ok (some o) ∧ ∃ m ∈ o.dependencies, m.index = index ∧
      m.premise.generalizes premise = true ∧ bound ≤ m.bound := by
  have hd := sound_dataset loaded built
  have admissible := (Setting.admits_iff hd admitted.length admitted.natural).mp admitted
  have threshold : bound.IsThreshold := ⟨admissible.positive hd, admissible.unit⟩
  constructor
  · intro s reached
    have upright := (reached.upright hd).shared
    exact (upright.lattice.claims.isImplied_iff admissible.proper threshold index).mpr
      (upright.covers _ _ _ admissible)
  · obtain ⟨o, ran⟩ := exists_outcome loaded built
    obtain ⟨l, final, listed⟩ := exists_final loaded built ran
    obtain ⟨g, general, le⟩ := final.covers _ _ _ admissible
    have positive : 0 < (l.bound g index).height := Int.lt_of_lt_of_le threshold.1 le
    have proper := (final.sound.stored_of_bound positive).1
    have supported := admissible.supported.of_generalizes hd proper admissible.proper general
    have place := (final.sound.mem_places_iff g index).mpr
      ⟨positive, final.sound.not_dropped hd proper supported⟩
    refine ⟨o, ran, l.dependency data (g, index), listed ▸ List.mem_map_of_mem place, rfl, ?_, ?_⟩
    · rw [l.premise_dependency]
      exact (hd.premise_generalizes_iff proper admitted.length admitted.natural).mpr general
    · have most := final.sound.bound_le g index
      have top := Score.unitHeight_lt_top
      rw [Score.le_iff]
      exact ⟨le, Int.lt_of_le_of_lt most top⟩

theorem admits_strangers : (amongStrangers.setting strangerData).Admits [1, 0] 1 1 := by
  have admissible : (amongStrangers.setting strangerData).Admissible [(0, 1)] 1
      (1 : Score).height := by
    rw [Score.height_one]
    exact admissible_of_crosses rfl (by decide) ⟨0, by decide, by decide, by decide, rfl⟩
  exact admissible.admits (sound_dataset strangers_loaded build_strangers)

theorem admitted_covered_strangers :
    (∀ s, Search.Reachable (amongStrangers.setting strangerData) s →
      (s.lattice.isImplied (Scores.constraints [1, 0]) 1 1).1 = true) ∧
    ∃ o, amongStrangers.execute = .ok (some o) ∧ ∃ m ∈ o.dependencies, m.index = 1 ∧
      m.premise.generalizes [1, 0] = true ∧ 1 ≤ m.bound :=
  admitted_covered strangers_loaded build_strangers admits_strangers

/-- No listed dependency follows from another one, and every listed bound is as
great as the data allow. -/
theorem listed_minimal (loaded : d.tables.Loaded) (built : d.dataset = .ok data)
    (unit : ∀ v ∈ data.pairProfiles, v.InUnit) (ran : d.execute = .ok (some o)) :
    (∀ j k (hj : j < o.dependencies.length) (hk : k < o.dependencies.length), j ≠ k →
      o.dependencies[j].index = o.dependencies[k].index →
      ¬(o.dependencies[j].premise.generalizes o.dependencies[k].premise = true ∧
        o.dependencies[k].bound ≤ o.dependencies[j].bound)) ∧
    ∀ m ∈ o.dependencies, data.Tight m.premise m.index m.bound := by
  have hd := sound_dataset loaded built
  constructor
  · obtain ⟨l, final, listed⟩ := exists_final loaded built ran
    generalize o.dependencies = listing at listed ⊢
    subst listed
    intro j k hj hk differ same ⟨general, le⟩
    rw [List.length_map] at hj hk
    simp only [List.getElem_map] at same general le
    have places := final.sound.getElem_places_ne hj hk differ
    have first := List.getElem_mem hj
    have second := List.getElem_mem hk
    generalize l.places[j] = x at first places same general le
    generalize l.places[k] = y at second places same general le
    obtain ⟨g, i⟩ := x
    obtain ⟨p, i'⟩ := y
    obtain rfl : i = i' := same
    obtain ⟨claimed, listed⟩ := (final.sound.mem_places_iff g i).mp first
    obtain ⟨claimed', listed'⟩ := (final.sound.mem_places_iff p i).mp second
    have other := (final.best_of_bound hd claimed listed).admissible
    have best := final.best_of_bound hd claimed' listed'
    have proper := best.admissible.proper
    have fits := proper.premise_fits hd.natural_positive data.natural_within
    rw [l.premise_dependency, l.premise_dependency] at general
    have general := (hd.premise_generalizes_iff other.proper (p.length_premise _) fits).mp general
    rw [hd.constraints_premise proper] at general
    -- Best claims about one column match do not imply each other.
    have less := best.lt_of_generalizes hd other general fun eq => places (eq ▸ rfl)
    have le := ((Score.le_iff _ _).mp le).1
    exact absurd le (Int.not_le.mpr less)
  · intro m hm
    obtain ⟨p, premise, threshold, best⟩ := exists_best loaded built ran hm
    rw [premise]
    exact best.tight hd unit threshold

theorem listed_minimal_strangers : ∃ o, amongStrangers.execute = .ok (some o) ∧
    o.dependencies.map (fun m => (m.premise, m.index, m.bound)) =
      [([1, 0], 1, 1), ([0, 1], 0, 1)] ∧
    (∀ j k (hj : j < o.dependencies.length) (hk : k < o.dependencies.length), j ≠ k →
      o.dependencies[j].index = o.dependencies[k].index →
      ¬(o.dependencies[j].premise.generalizes o.dependencies[k].premise = true ∧
        o.dependencies[k].bound ≤ o.dependencies[j].bound)) ∧
    ∀ m ∈ o.dependencies, strangerData.Tight m.premise m.index m.bound := by
  obtain ⟨o, ran, listed⟩ := listed_strangers
  exact ⟨o, ran, listed, listed_minimal strangers_loaded build_strangers inUnit_strangers ran⟩

end Discovery

end MatchingDependencies
