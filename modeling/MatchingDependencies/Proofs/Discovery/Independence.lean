import MatchingDependencies.Proofs.Discovery.Outcome

/-!
# What a discovery depends on

The similarities of the record pairs determine what is admissible, and so the
best claims and their order. Nothing else has an effect on the list: neither how
values are numbered nor the order of the records, and so not the path of the
search either.
-/

set_option autoImplicit false

namespace MatchingDependencies

namespace Dataset

/-- The data have the same similarities, in some order. -/
structure Alike (d e : Dataset) : Prop where
  width : d.width = e.width
  profiles : d.pairProfiles.Perm e.pairProfiles

namespace Alike

variable {d e : Dataset} (h : d.Alike e)

include h

theorem symm : e.Alike d := ⟨h.width.symm, h.profiles.symm⟩

theorem support_eq (premise : Scores) : d.support premise = e.support premise :=
  h.profiles.countP_eq _

theorem shows_iff (p : Path) (v : Scores) : d.Shows p v ↔ e.Shows p v :=
  and_congr_left fun _ => h.profiles.mem_iff

variable (hd : d.Sound) (he : e.Sound)

include hd he

theorem natural_iff (c : Nat) (t : Score) : d.Natural c t ↔ e.Natural c t := by
  rw [hd.natural_iff, he.natural_iff, h.width]
  exact and_congr_right fun _ => and_congr_right fun _ =>
    exists_congr fun v => and_congr_left fun _ => h.profiles.mem_iff

theorem natural_eq : d.Natural = e.Natural :=
  funext fun c => funext fun t => propext (h.natural_iff hd he c t)

theorem boundaries_eq {c : Nat} (hc : c < d.width) :
    (d.comparison c).boundaries = (e.comparison c).boundaries := by
  have below : c < e.width := h.width ▸ hc
  rw [← Array.toList_inj]
  refine eq_of_sorted (fun a b less greater => absurd less (Int.not_lt.mpr (Int.le_of_lt greater)))
    (hd.comparisons c hc).sorted (he.comparisons c below).sorted fun t => ?_
  rw [Array.mem_toList_iff, Array.mem_toList_iff]
  exact h.natural_iff hd he c t

theorem conditionsOf_eq {premise : Scores} (length : premise.length = d.width) :
    Dependency.conditionsOf d premise = Dependency.conditionsOf e premise := by
  apply List.map_congr_left
  intro x hx
  have inside : x.2 < d.width := by
    have := List.snd_lt_of_mem_zipIdx hx
    omega
  simp only [Comparison.previousBoundary?, h.boundaries_eq hd he inside]

end Alike

end Dataset

namespace Setting

variable {q q' : Setting}

structure Alike (q q' : Setting) : Prop where
  data : q.data.Alike q'.data
  minSupport : q.minSupport = q'.minSupport
  disjoint : q.disjoint = q'.disjoint

namespace Alike

variable (h : q.Alike q') (hd : q.data.Sound) (hd' : q'.data.Sound)
  {p : Path} {i : Nat} {height : Int}

theorem symm (h : q.Alike q') : q'.Alike q := ⟨h.data.symm, h.minSupport.symm, h.disjoint.symm⟩

include h hd hd'

theorem admissible (admissible : q.Admissible p i height) : q'.Admissible p i height := by
  refine ⟨?_, ?_, ?_, ?_, admissible.unit, fun v shown => ?_⟩
  · rw [← h.data.natural_eq hd hd']
    exact admissible.proper
  · rw [← h.data.width]
    exact admissible.column
  · rw [Supports, ← h.minSupport, ← h.data.width, ← h.data.support_eq]
    exact admissible.supported
  · rw [Permits, ← h.disjoint]
    exact admissible.permitted
  · exact admissible.holds v ((h.data.shows_iff p v).mpr shown)

theorem best (best : q.Best p i height) : q'.Best p i height :=
  ⟨h.admissible hd hd' best.admissible,
    fun most other => best.greatest most (h.symm.admissible hd' hd other),
    fun g general differ other => best.general g general differ (h.symm.admissible hd' hd other)⟩

end Alike

end Setting

namespace Lattice.Final

variable {q q' : Setting} {l l' : Lattice} (h : q.Alike q') (hd : q.data.Sound)
  (hd' : q'.data.Sound)

include h hd hd'

theorem bound_eq (final : l.Final q) (final' : l'.Final q') {p : Path} {i : Nat}
    (positive : 0 < (l.bound p i).height) (listed : ¬l.Dropped p) :
    l'.bound p i = l.bound p i ∧ ¬l'.Dropped p := by
  have best := h.best hd hd' (final.best_of_bound hd positive listed)
  obtain ⟨height, listed'⟩ := final'.bound_of_best hd' best
  exact ⟨Score.IsThreshold.ext ⟨positive, final.sound.bound_le p i⟩ height, listed'⟩

theorem mem_places (final : l.Final q) (final' : l'.Final q') {x : Path × Nat}
    (hx : x ∈ l.places) : x ∈ l'.places := by
  obtain ⟨p, i⟩ := x
  obtain ⟨positive, listed⟩ := (final.sound.mem_places_iff p i).mp hx
  obtain ⟨eq, listed'⟩ := bound_eq h hd hd' final final' positive listed
  exact (final'.sound.mem_places_iff p i).mpr ⟨eq ▸ positive, listed'⟩

theorem places_eq (final : l.Final q) (final' : l'.Final q') : l.places = l'.places :=
  eq_of_sorted (fun _ _ => Sooner.asymm) final.sound.places_sorted final'.sound.places_sorted
    fun _ => ⟨mem_places h hd hd' final final', mem_places h.symm hd' hd final' final⟩

theorem dependency_eq (final : l.Final q) (final' : l'.Final q') {x : Path × Nat}
    (hx : x ∈ l.places) : l.dependency q.data x = l'.dependency q'.data x := by
  obtain ⟨p, i⟩ := x
  obtain ⟨positive, listed⟩ := (final.sound.mem_places_iff p i).mp hx
  have bound := (bound_eq h hd hd' final final' positive listed).1
  have conditions := h.data.conditionsOf_eq hd hd' (p.length_premise q.data.width)
  rw [dependency, dependency, bound, conditions, h.data.width]

end Lattice.Final

namespace Discovery

variable {d d' : Discovery} {data data' : Dataset}

/-- Discoveries that ask the same of the same similarities end and list the same
dependencies in the same order. -/
theorem dependencies_eq_of_perm (loaded : d.tables.Loaded) (loaded' : d'.tables.Loaded)
    (built : d.dataset = .ok data) (built' : d'.dataset = .ok data')
    (width : d.columnMatches.length = d'.columnMatches.length)
    (minSupport : d.minSupport = d'.minSupport) (disjoint : d.disjoint = d'.disjoint)
    (profiles : data.pairProfiles.Perm data'.pairProfiles) :
    ∃ o o', d.execute = .ok (some o) ∧ d'.execute = .ok (some o') ∧
      o.dependencies = o'.dependencies := by
  have hd := sound_dataset loaded built
  have hd' := sound_dataset loaded' built'
  have alike : (d.setting data).Alike (d'.setting data') := by
    refine ⟨⟨?_, profiles⟩, minSupport, disjoint⟩
    have size := (Dataset.exists_comparison built).2.1
    have size' := (Dataset.exists_comparison built').2.1
    rw [List.length_map] at size size'
    exact size.trans (width.trans size'.symm)
  obtain ⟨o, ran⟩ := exists_outcome loaded built
  obtain ⟨o', ran'⟩ := exists_outcome loaded' built'
  obtain ⟨l, final, listed⟩ := exists_final loaded built ran
  obtain ⟨l', final', listed'⟩ := exists_final loaded' built' ran'
  refine ⟨o, o', ran, ran', ?_⟩
  rw [listed, listed', ← Lattice.Final.places_eq alike hd hd' final final']
  exact List.map_congr_left fun x hx => Lattice.Final.dependency_eq alike hd hd' final final' hx

def reordered : Table :=
  ⟨"people", ["name", "city"],
    #[⟨#["Bob", "Ada"], #[[0], [1]]⟩, ⟨#["Bern", "Rome"], #[[0], [1]]⟩], #[#[0, 0], #[1, 1]], 0⟩

theorem load_reordered :
    Table.load (.ofRows "people" ["name", "city"] [["Bob", "Bern"], ["Ada", "Rome"]]) =
      .ok reordered := by
  rw [RowSource.ofRows, Table.load_of_delivers (RowSource.delivers_listed _)]
  simp [Table.fitting, Table.Draft.ofRows, Table.Draft.empty, Table.Draft.add, Table.Draft.table,
    Column.Draft.enter, Column.Draft.empty, Column.Draft.opened, Column.Draft.column,
    RowSource.columns, RowSource.name, Numbering.add, Numbering.empty, Numbering.number,
    Numbering.size, reordered]

theorem reordered_loaded : Tables.Loaded ⟨strangers, some reordered⟩ := by
  refine ⟨⟨_, load_strangers⟩, fun other same => ?_⟩
  rw [← Option.some.inj same]
  exact ⟨_, load_reordered⟩

def withReordered : Discovery := { amongStrangers with tables := ⟨strangers, some reordered⟩ }

def reorderedData : Dataset :=
  { tables := ⟨strangers, some reordered⟩
    columnMatches := #[⟨0, 0, crossed⟩, ⟨1, 1, crossed⟩] }
where
  crossed : Comparison :=
    .ofRows [(0, .ofEntries #[[0], [1]] [(1, 1)]), (0, .ofEntries #[[0], [1]] [(0, 1)])]

theorem build_reordered : withReordered.dataset = .ok reorderedData := by
  with_unfolding_all rfl

theorem dependencies_eq_of_perm_strangers :
    strangerData.pairProfiles = [[1, 1], [0, 0], [0, 0], [1, 1]] ∧
    reorderedData.pairProfiles = [[0, 0], [1, 1], [1, 1], [0, 0]] ∧
    ∃ o o', amongStrangers.execute = .ok (some o) ∧ withReordered.execute = .ok (some o') ∧
      o.dependencies.map (fun m => (m.premise, m.index, m.bound)) =
        [([1, 0], 1, 1), ([0, 1], 0, 1)] ∧ o.dependencies = o'.dependencies := by
  have profiles : strangerData.pairProfiles = [[1, 1], [0, 0], [0, 0], [1, 1]] := by
    with_unfolding_all rfl
  have profiles' : reorderedData.pairProfiles = [[0, 0], [1, 1], [1, 1], [0, 0]] := by
    with_unfolding_all rfl
  have perm : strangerData.pairProfiles.Perm reorderedData.pairProfiles := by
    rw [profiles, profiles']
    decide
  obtain ⟨first, ran₁, listed⟩ := listed_strangers
  obtain ⟨o, o', ran, ran', same⟩ := dependencies_eq_of_perm strangers_loaded reordered_loaded
    build_strangers build_reordered rfl rfl rfl perm
  obtain rfl : first = o := Option.some.inj (Except.ok.inj (ran₁.symm.trans ran))
  exact ⟨profiles, profiles', first, o', ran, ran', listed, same⟩

end Discovery

end MatchingDependencies
