import MatchingDependencies.Discovery
import MatchingDependencies.Proofs.Dependency.Listing
import MatchingDependencies.Proofs.Termination

/-!
# The outcome of a discovery

A discovery on loaded tables ends with the best claims of its data, whatever the
measures are, and lists each of them once.
-/

set_option autoImplicit false

namespace MatchingDependencies

theorem Lattice.Final.mem_places_iff {q : Setting} {l : Lattice} (final : l.Final q)
    (hd : q.data.Sound) (p : Path) (i : Nat) :
    (p, i) ∈ l.places ↔ q.Best p i (l.bound p i).height := by
  rw [final.sound.mem_places_iff]
  constructor
  · exact fun ⟨positive, listed⟩ => final.best_of_bound hd positive listed
  · exact fun best => ⟨best.admissible.positive hd, (final.bound_of_best hd best).2⟩

namespace Discovery

def dataset (d : Discovery) : Except RequestError Dataset :=
  Dataset.build d.tables (d.columnMatches.map fun m => (m.left, m.right, m.measure))
    d.nullEqualsNull

def setting (d : Discovery) (data : Dataset) : Setting := ⟨data, d.minSupport, d.disjoint⟩

variable {d : Discovery} {data : Dataset} {o : Outcome}

theorem execute_eq (built : d.dataset = .ok data) :
    d.execute = .ok ((Search.run (d.setting data)).map fun s =>
      { dependencies := Dependency.ofLattice data s.lattice
        validations := s.traversal.validations
        batches := s.traversal.batches
        levels := s.traversal.level
        profiles := s.inference.profileCount
        refuted := s.inference.refutedCount
        visited := s.lattice.claims.visited
        nodes := s.lattice.claims.size
        skipped := d.tables.skipped }) := by
  rw [execute]
  change d.dataset >>= _ = _
  rw [built]
  rfl

variable (loaded : d.tables.Loaded) (built : d.dataset = .ok data)

include loaded built

theorem sound_dataset : (d.setting data).data.Sound :=
  Dataset.sound_of_build loaded built

theorem exists_outcome : ∃ o, d.execute = .ok (some o) := by
  obtain ⟨last, ran⟩ := Search.run_answers (sound_dataset loaded built)
  rw [execute_eq built, ran]
  exact ⟨_, rfl⟩

theorem exists_final (ran : d.execute = .ok (some o)) : ∃ l : Lattice, l.Final (d.setting data) ∧
    o.dependencies = l.places.map (l.dependency data) := by
  rw [execute_eq built] at ran
  obtain ⟨s, found, rfl⟩ := Option.map_eq_some_iff.mp (Except.ok.inj ran)
  have final := Search.final_of_run (sound_dataset loaded built) found
  exact ⟨s.lattice, final, final.sound.ofLattice_eq⟩

theorem exists_best (ran : d.execute = .ok (some o)) {m : Dependency} (hm : m ∈ o.dependencies) :
    ∃ p : Path, m.premise = p.premise data.width ∧ m.bound.IsThreshold ∧
      (d.setting data).Best p m.index m.bound.height := by
  have hd := sound_dataset loaded built
  obtain ⟨l, final, eq⟩ := exists_final loaded built ran
  rw [eq, List.mem_map] at hm
  obtain ⟨⟨p, i⟩, place, rfl⟩ := hm
  have best := (final.mem_places_iff hd p i).mp place
  exact ⟨p, l.premise_dependency .., ⟨best.admissible.positive hd, best.admissible.unit⟩, best⟩

omit loaded built

/-! ## Two strangers -/

def equal : Measure := .pairwise "equality" 0 false Measure.equalitySimilarity

/-- Two people of two names, who live in two cities. -/
def strangers : Table :=
  ⟨"people", ["name", "city"],
    #[⟨#["Ada", "Bob"], #[[0], [1]]⟩, ⟨#["Rome", "Bern"], #[[0], [1]]⟩], #[#[0, 0], #[1, 1]], 0⟩

theorem load_strangers :
    Table.load (.ofRows "people" ["name", "city"] [["Ada", "Rome"], ["Bob", "Bern"]]) =
      .ok strangers := by
  rw [RowSource.ofRows, Table.load_of_delivers (RowSource.delivers_listed _)]
  simp [Table.fitting, Table.Draft.ofRows, Table.Draft.empty, Table.Draft.add, Table.Draft.table,
    Column.Draft.enter, Column.Draft.empty, Column.Draft.opened, Column.Draft.column,
    RowSource.columns, RowSource.name, Numbering.add, Numbering.empty, Numbering.number,
    Numbering.size, strangers]

theorem strangers_loaded : Tables.Loaded ⟨strangers, none⟩ := ⟨⟨_, load_strangers⟩, nofun⟩

def amongStrangers : Discovery :=
  ⟨⟨strangers, none⟩, [⟨0, 0, equal⟩, ⟨1, 1, equal⟩], true, 0, true⟩

def unlike : Comparison :=
  .ofRows [(0, .ofEntries #[[0], [1]] [(0, 1)]), (0, .ofEntries #[[0], [1]] [(1, 1)])]

def strangerData : Dataset :=
  { tables := ⟨strangers, none⟩
    columnMatches := #[⟨0, 0, unlike⟩, ⟨1, 1, unlike⟩] }

theorem build_strangers : amongStrangers.dataset = .ok strangerData := by
  with_unfolding_all rfl

theorem mem_profiles_strangers {v : Scores} (hv : v ∈ strangerData.pairProfiles) :
    v = [1, 1] ∨ v = [0, 0] := by
  have profiles : strangerData.pairProfiles = [[1, 1], [0, 0], [0, 0], [1, 1]] := by
    with_unfolding_all rfl
  rw [profiles] at hv
  simp only [List.mem_cons, List.not_mem_nil, or_false] at hv
  rcases hv with rfl | rfl | rfl | rfl <;> simp

theorem inUnit_strangers : ∀ v ∈ strangerData.pairProfiles, v.InUnit := by
  intro v hv
  rcases mem_profiles_strangers hv with rfl | rfl <;> decide

/-! ### What is listed about them -/

section Strangers

variable {q : Setting} {p : Path} {i : Nat} {height : Int}

def Crosses (p : Path) (i : Nat) : Prop := ∃ c < 2, i < 2 ∧ c ≠ i ∧ p = [(c, 1)]

theorem crosses_of_admissible (data : q.data = strangerData)
    (admissible : q.Admissible p i height) : Crosses p i := by
  obtain ⟨proper, column, -, ⟨above, -⟩, unit, holds⟩ := admissible
  rw [data] at proper column holds
  have grid : strangerData.grid (List.range strangerData.width) =
      [[], [(0, 1)], [(1, 1)], [(0, 1), (1, 1)]] := by with_unfolding_all rfl
  have place := strangerData.mem_grid proper
  rw [grid] at place
  simp only [List.mem_cons, List.not_mem_nil, or_false] at place
  change i < 2 at column
  have free : p.demand i ≠ (1 : Score).height := by
    rw [Score.height_one]
    omega
  rcases place with rfl | rfl | rfl | rfl
  · -- two people who share nothing satisfy the empty premise
    have numbered : Scores.Numbered [0, 0] := by decide
    have shown : strangerData.Shows [] [0, 0] := ⟨by with_unfolding_all decide, fun c => by
      simpa using numbered.demand_nonneg c⟩
    have least : height ≤ (Scores.score [0, 0] i).height := holds [0, 0] shown
    have zeros : ∀ j < 2, Scores.score [0, 0] j = 0 := by decide
    rw [zeros i column] at least
    exact absurd above (Int.not_lt.mpr least)
  · exact ⟨0, by decide, column, fun same => free (same ▸ rfl), rfl⟩
  · exact ⟨1, by decide, column, fun same => free (same ▸ rfl), rfl⟩
  · have demanded : ∀ j < 2, Path.score [(0, 1), (1, 1)] j = 1 := by decide
    exact absurd (congrArg Score.height (demanded i column)) free

theorem admissible_of_crosses (data : q.data = strangerData) (support : q.minSupport ≤ 2)
    (crosses : Crosses p i) : q.Admissible p i Score.unitHeight := by
  obtain ⟨_, minSupport, disjoint⟩ := q
  subst data
  obtain ⟨c, hc, hi, differ, rfl⟩ := crosses
  have natural : ∀ c < 2, (1 : Score) ∈ (strangerData.comparison c).boundaries := by
    with_unfolding_all decide
  have satisfied : ∀ c < 2, strangerData.support (Path.premise 2 [(c, 1)]) = 2 := by
    with_unfolding_all decide
  have demand : ∀ j, Path.demand [(c, 1)] j = if c = j then Score.unitHeight else 0 := by
    intro j
    rw [Path.demand_cons, Score.height_one, Path.demand_nil]
  have free : Path.demand [(c, 1)] i = 0 := (demand i).trans (if_neg differ)
  refine ⟨⟨Nat.zero_le c, natural c hc, trivial⟩, hi, ?_, ⟨?_, fun _ => free⟩, Int.le_refl _, ?_⟩
  · exact Nat.le_trans support (Nat.le_of_eq (satisfied c hc).symm)
  · rw [free]
    exact Score.unitHeight_pos
  · rintro v ⟨hv, reaches⟩
    rcases mem_profiles_strangers hv with rfl | rfl
    · have ones : ∀ j < 2, Scores.score [1, 1] j = 1 := by decide
      rw [Scores.demand, ones i hi, Score.height_one]
    · have zeros : ∀ j < 2, Scores.score [0, 0] j = 0 := by decide
      have reached := reaches c
      rw [demand, if_pos rfl, Scores.demand, zeros c hc, Score.height_zero] at reached
      exact absurd reached (Int.not_le.mpr Score.unitHeight_pos)

theorem best_strangers_iff (data : q.data = strangerData) (support : q.minSupport ≤ 2) :
    q.Best p i height ↔ height = Score.unitHeight ∧ Crosses p i := by
  constructor
  · intro best
    have crosses := crosses_of_admissible data best.admissible
    have most := best.greatest _ (admissible_of_crosses data support crosses)
    exact ⟨Int.le_antisymm best.admissible.unit most, crosses⟩
  · rintro ⟨rfl, crosses⟩
    refine ⟨admissible_of_crosses data support crosses, fun h other => other.unit, ?_⟩
    intro g _ differ other
    obtain ⟨c, hc, hi, apart, rfl⟩ := crosses
    obtain ⟨c', hc', -, apart', rfl⟩ := crosses_of_admissible data other
    have same : c' = c := by omega
    exact differ (same ▸ rfl)

theorem places_strangers {l : Lattice} (final : l.Final q) (hd : q.data.Sound)
    (data : q.data = strangerData) (support : q.minSupport ≤ 2) :
    l.places = [([(0, 1)], 1), ([(1, 1)], 0)] ∧ ∀ x ∈ l.places, l.bound x.1 x.2 = 1 := by
  have bound : ∀ p i, Crosses p i → l.bound p i = 1 := by
    intro p i crosses
    have best := (best_strangers_iff data support).mpr ⟨rfl, crosses⟩
    have height := (final.bound_of_best hd best).1
    exact Score.IsThreshold.ext Comparison.isThreshold_one (height.trans Score.height_one.symm)
  have places : ∀ x, x ∈ l.places ↔ Crosses x.1 x.2 := by
    rintro ⟨p, i⟩
    rw [final.mem_places_iff hd p i, best_strangers_iff data support]
    refine ⟨And.right, fun crosses => ⟨?_, crosses⟩⟩
    rw [bound p i crosses, Score.height_one]
  refine ⟨?_, fun x hx => bound x.1 x.2 ((places x).mp hx)⟩
  have sooner : Lattice.Sooner ([(0, (1 : Score))], 1) ([(1, 1)], 0) :=
    .inr ⟨rfl, .inl (.rel (.inl Nat.one_pos))⟩
  refine eq_of_sorted (fun _ _ => Lattice.Sooner.asymm) final.sound.places_sorted
    (List.pairwise_pair.mpr sooner) ?_
  rintro ⟨p, i⟩
  rw [places, List.mem_pair, Prod.mk.injEq, Prod.mk.injEq]
  constructor
  · rintro ⟨c, hc, hi, differ, rfl⟩
    change i < 2 at hi
    obtain ⟨rfl, rfl⟩ | ⟨rfl, rfl⟩ : c = 0 ∧ i = 1 ∨ c = 1 ∧ i = 0 := by omega
    · exact .inl ⟨rfl, rfl⟩
    · exact .inr ⟨rfl, rfl⟩
  · rintro (⟨rfl, rfl⟩ | ⟨rfl, rfl⟩)
    · exact ⟨0, by decide, by decide, by decide, rfl⟩
    · exact ⟨1, by decide, by decide, by decide, rfl⟩

end Strangers

theorem listed_of_strangers (loaded : d.tables.Loaded) (built : d.dataset = .ok strangerData)
    (support : d.minSupport ≤ 2) (ran : d.execute = .ok (some o)) :
    o.dependencies.map (fun m => (m.premise, m.index, m.bound)) =
      [([1, 0], 1, 1), ([0, 1], 0, 1)] := by
  obtain ⟨l, final, listed⟩ := exists_final loaded built ran
  obtain ⟨places, bounds⟩ := places_strangers final (sound_dataset loaded built) rfl support
  have entry : ∀ x ∈ l.places, (fun m : Dependency => (m.premise, m.index, m.bound))
      (l.dependency strangerData x) = (x.1.premise 2, x.2, 1) := by
    intro x hx
    have premise := l.premise_dependency strangerData x
    dsimp only
    rw [premise, ← bounds x hx]
    rfl
  rw [listed, List.map_map]
  exact (List.map_congr_left entry).trans (places ▸ rfl)

theorem listed_strangers : ∃ o, amongStrangers.execute = .ok (some o) ∧
    o.dependencies.map (fun m => (m.premise, m.index, m.bound)) =
      [([1, 0], 1, 1), ([0, 1], 0, 1)] := by
  obtain ⟨o, ran⟩ := exists_outcome strangers_loaded build_strangers
  exact ⟨o, ran, listed_of_strangers strangers_loaded build_strangers (Nat.zero_le 2) ran⟩

/-! ## Two people of one name -/

/-- Two people of one name, who live in two cities. -/
def namesakes : Table :=
  ⟨"people", ["name", "city"], #[⟨#["Ada"], #[[0, 1]]⟩, ⟨#["Rome", "Bern"], #[[0], [1]]⟩],
    #[#[0, 0], #[0, 1]], 0⟩

theorem namesakes_loaded : Tables.Loaded ⟨namesakes, none⟩ := by
  refine ⟨⟨.ofRows "people" ["name", "city"] [["Ada", "Rome"], ["Ada", "Bern"]], ?_⟩, nofun⟩
  rw [RowSource.ofRows, Table.load_of_delivers (RowSource.delivers_listed _)]
  simp [Table.fitting, Table.Draft.ofRows, Table.Draft.empty, Table.Draft.add, Table.Draft.table,
    Column.Draft.enter, Column.Draft.empty, Column.Draft.opened, Column.Draft.column,
    RowSource.columns, RowSource.name, Numbering.add, Numbering.empty, Numbering.number,
    Numbering.size, namesakes]

def namesakeMatches : List (Nat × Nat × Measure) :=
  [(0, 0, equal), (1, 1, equal)]

def namesakeData : Dataset :=
  { tables := ⟨namesakes, none⟩
    columnMatches := #[⟨0, 0, .ofRows [(1, .ofEntries #[[0, 1]] [(0, 1)])]⟩,
      ⟨1, 1, .ofRows [(0, .ofEntries #[[0], [1]] [(0, 1)]),
        (0, .ofEntries #[[0], [1]] [(1, 1)])]⟩] }

theorem build_namesakes :
    Dataset.build ⟨namesakes, none⟩ namesakeMatches true = .ok namesakeData := by
  with_unfolding_all rfl

end Discovery

end MatchingDependencies
