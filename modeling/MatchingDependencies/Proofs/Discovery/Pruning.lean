import MatchingDependencies.Proofs.Discovery.Outcome

/-!
# Pruning is only a filter

A premise with few pairs is never extended, and with the disjointness rule
nothing is claimed of a premise that constrains the column match in question. So
searches with and without these rules go different ways. But generalizations of
a premise that may be claimed about may be claimed about too, and so the best
claims under the rules are the best claims at all that obey them.
-/

set_option autoImplicit false

namespace MatchingDependencies

namespace Setting

variable {q : Setting} {p g : Path} {i : Nat} {height : Int}

def unpruned (q : Setting) : Setting := { q with minSupport := 0, disjoint := false }

/-- The rules allow claims about the column match of the premise of a path. -/
structure Obeys (q : Setting) (p : Path) (i : Nat) : Prop where
  supported : q.Supports p
  disjoint : q.disjoint = true → p.demand i = 0

theorem Obeys.of_generalizes (h : q.Obeys p i) (hd : q.data.Sound)
    (hg : g.Proper q.data.Natural 0) (hp : p.Proper q.data.Natural 0) (general : g.Generalizes p) :
    q.Obeys g i := by
  refine ⟨h.supported.of_generalizes hd hg hp general, fun disjoint => ?_⟩
  have zero := h.disjoint disjoint
  have low := hg.demand_nonneg hd.natural_positive i
  have le := general i
  omega

theorem admissible_iff :
    q.Admissible p i height ↔ q.unpruned.Admissible p i height ∧ q.Obeys p i := by
  constructor
  · intro h
    exact ⟨⟨h.proper, h.column, Nat.zero_le _, ⟨h.permitted.1, nofun⟩, h.unit, h.holds⟩,
      h.supported, h.permitted.2⟩
  · rintro ⟨h, obeys⟩
    exact ⟨h.proper, h.column, obeys.supported, ⟨h.permitted.1, obeys.disjoint⟩, h.unit, h.holds⟩

theorem best_iff (hd : q.data.Sound) :
    q.Best p i height ↔ q.unpruned.Best p i height ∧ q.Obeys p i := by
  constructor
  · intro h
    obtain ⟨admissible, obeys⟩ := admissible_iff.mp h.admissible
    refine ⟨⟨admissible, fun most other => h.greatest most (admissible_iff.mpr ⟨other, obeys⟩),
      fun g general differ other => h.general g general differ (admissible_iff.mpr ⟨other, ?_⟩)⟩,
      obeys⟩
    exact obeys.of_generalizes hd other.proper admissible.proper general
  · rintro ⟨h, obeys⟩
    exact ⟨admissible_iff.mpr ⟨h.admissible, obeys⟩,
      fun most other => h.greatest most (admissible_iff.mp other).1,
      fun g general differ other => h.general g general differ (admissible_iff.mp other).1⟩

end Setting

namespace Lattice.Final

variable {q : Setting} {l l₀ : Lattice} {p : Path} {i : Nat}

variable (final : l.Final q) (final₀ : l₀.Final q.unpruned) (hd : q.data.Sound)

include final final₀ hd

theorem bound_unpruned (place : (p, i) ∈ l.places) : l.bound p i = l₀.bound p i := by
  have best := (final.mem_places_iff hd p i).mp place
  have height := (final₀.bound_of_best hd ((Setting.best_iff hd).mp best).1).1
  exact (Score.IsThreshold.ext ⟨best.admissible.positive hd, best.admissible.unit⟩ height).symm

theorem mem_places_unpruned_iff (p : Path) (i : Nat) :
    (p, i) ∈ l.places ↔ (p, i) ∈ l₀.places ∧ q.Obeys p i := by
  constructor
  · intro place
    have best := (Setting.best_iff hd).mp ((final.mem_places_iff hd p i).mp place)
    rw [bound_unpruned final final₀ hd place] at best
    exact ⟨(final₀.mem_places_iff hd p i).mpr best.1, best.2⟩
  · rintro ⟨place, obeys⟩
    have best := (Setting.best_iff hd).mpr ⟨(final₀.mem_places_iff hd p i).mp place, obeys⟩
    have height := (final.bound_of_best hd best).1
    exact (final.mem_places_iff hd p i).mpr (height.symm ▸ best)

end Lattice.Final

namespace Discovery

variable {d : Discovery} {data : Dataset}

def unpruned (d : Discovery) : Discovery := { d with minSupport := 0, disjoint := false }

def keeps (d : Discovery) (data : Dataset) (m : Dependency) : Bool :=
  d.minSupport ≤ data.support m.premise && (!d.disjoint || (m.premise.score m.index).isZero)

theorem keeps_dependency_iff (hd : data.Sound) (l : Lattice) {p : Path}
    (hp : p.Proper data.Natural 0) (i : Nat) :
    d.keeps data (l.dependency data (p, i)) = true ↔ (d.setting data).Obeys p i := by
  have demand : (p.premise data.width).demand i = p.demand i :=
    hp.demand_premise hd.natural_positive data.natural_within i
  rw [keeps, Bool.and_eq_true, decide_eq_true_iff, l.premise_dependency, Bool.or_eq_true,
    Bool.not_eq_true', Score.isZero_iff]
  change _ ∧ (_ ∨ (p.premise data.width).demand i = 0) ↔ _
  rw [demand]
  constructor
  · rintro ⟨supported, rule⟩
    refine ⟨supported, fun disjoint => rule.resolve_left fun overlapping => ?_⟩
    exact Bool.false_ne_true (overlapping.symm.trans disjoint)
  · rintro ⟨supported, disjoint⟩
    refine ⟨supported, ?_⟩
    cases rule : d.disjoint with
    | false => exact .inl rfl
    | true => exact .inr (disjoint rule)

/-- Whatever support a discovery asks for, and whether or not it asks for
disjoint columns: it lists what a discovery without these rules lists, in the same
order, but for the dependencies that break the rules. -/
theorem dependencies_eq_filter (loaded : d.tables.Loaded) (built : d.dataset = .ok data) :
    ∃ o o₀, d.execute = .ok (some o) ∧ d.unpruned.execute = .ok (some o₀) ∧
      o.dependencies = o₀.dependencies.filter (d.keeps data) := by
  have hd := sound_dataset loaded built
  have loaded₀ : d.unpruned.tables.Loaded := loaded
  have built₀ : d.unpruned.dataset = .ok data := built
  obtain ⟨o, ran⟩ := exists_outcome loaded built
  obtain ⟨o₀, ran₀⟩ := exists_outcome loaded₀ built₀
  obtain ⟨l, final, listed⟩ := exists_final loaded built ran
  obtain ⟨l₀, final₀, listed₀⟩ := exists_final loaded₀ built₀ ran₀
  have obeys : ∀ x ∈ l₀.places, (d.keeps data (l₀.dependency data x) = true ↔
      (d.setting data).Obeys x.1 x.2) := fun x place =>
    keeps_dependency_iff hd l₀ ((final₀.mem_places_iff hd x.1 x.2).mp place).admissible.proper x.2
  -- Both lists are sorted, so they are the same if they have the same members.
  have places : l.places = l₀.places.filter fun x => d.keeps data (l₀.dependency data x) := by
    refine eq_of_sorted (fun _ _ => Lattice.Sooner.asymm) final.sound.places_sorted
      (final₀.sound.places_sorted.filter _) fun x => ?_
    rw [List.mem_filter, final.mem_places_unpruned_iff final₀ hd x.1 x.2]
    exact and_congr_right fun place => (obeys x place).symm
  refine ⟨o, o₀, ran, ran₀, ?_⟩
  rw [listed, listed₀, List.filter_map, Function.comp_def, ← places]
  refine List.map_congr_left fun x place => ?_
  rw [Lattice.dependency, Lattice.dependency, final.bound_unpruned final₀ hd place]

theorem dependencies_eq_filter_strangers :
    let d := { amongStrangers with minSupport := 3 }
    ∃ o o₀, d.execute = .ok (some o) ∧ d.unpruned.execute = .ok (some o₀) ∧
      o.dependencies = o₀.dependencies.filter (d.keeps strangerData) ∧
      o₀.dependencies.map (fun m => (m.premise, m.index, m.bound)) =
        [([1, 0], 1, 1), ([0, 1], 0, 1)] ∧ o.dependencies = [] := by
  intro d
  have built : d.dataset = .ok strangerData := build_strangers
  obtain ⟨o, o₀, ran, ran₀, filtered⟩ := dependencies_eq_filter strangers_loaded built
  have listed := listed_of_strangers (d := d.unpruned) strangers_loaded built (Nat.zero_le 2) ran₀
  refine ⟨o, o₀, ran, ran₀, filtered, listed, ?_⟩
  have few : ∀ premise ∈ [[1, 0], [0, (1 : Score)]], strangerData.support premise = 2 := by
    with_unfolding_all decide
  rw [filtered, List.filter_eq_nil_iff]
  intro m hm
  have entry := List.mem_map_of_mem (f := fun m : Dependency => (m.premise, m.index, m.bound)) hm
  rw [listed] at entry
  have premise := List.mem_map_of_mem (f := Prod.fst) entry
  have support : strangerData.support m.premise = 2 := few _ premise
  rw [keeps, support]
  exact Bool.false_ne_true

end Discovery

end MatchingDependencies
