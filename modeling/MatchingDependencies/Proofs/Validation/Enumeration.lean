import MatchingDependencies.Proofs.Discovery.Outcome
import MatchingDependencies.Proofs.Lattice.Built
import MatchingDependencies.Proofs.Validation.Outcome

/-!
# Validation against plain enumeration

By plain enumeration a bound is settled in three steps: the least similarity of
all pairs that satisfy the premise, the greatest bound that the premise or a
stored generalization guarantees, and zero if the first is not above the second.
Validation visits groups, looks up an index and stops early, and comes to the
same bounds, score by score.
-/

set_option autoImplicit false

namespace MatchingDependencies

open MatchingDependencies.Path (Allowed)
open MatchingDependencies.Discovery (namesakes namesakes_loaded namesakeMatches namesakeData
  build_namesakes)

theorem Score.foldl_larger (scores : List Score) (start : Score) (nonneg : start.IsNonneg)
    (all : ∀ s ∈ scores, s.IsNonneg) :
    (scores.foldl larger start).IsNonneg ∧
      start.height ≤ (scores.foldl larger start).height ∧
      (∀ s ∈ scores, s.height ≤ (scores.foldl larger start).height) ∧
      ((scores.foldl larger start).height = start.height ∨
        ∃ s ∈ scores, (scores.foldl larger start).height = s.height) := by
  induction scores generalizing start with
  | nil => exact ⟨nonneg, Int.le_refl _, by simp, .inl rfl⟩
  | cons s scores ih =>
    have hs := all s List.mem_cons_self
    have height := height_larger nonneg.2 hs.2
    have next : (start.larger s).IsNonneg := by
      rw [IsNonneg] at nonneg hs ⊢
      omega
    obtain ⟨inside, le, greatest, attained⟩ :=
      ih (start.larger s) next fun t ht => all t (List.mem_cons_of_mem _ ht)
    rw [List.foldl_cons]
    refine ⟨inside, by omega, fun t ht => ?_, ?_⟩
    · rcases List.mem_cons.mp ht with rfl | ht
      · omega
      · exact greatest t ht
    · rcases attained with eq | ⟨t, ht, eq⟩
      · by_cases lt : start.height < s.height
        · exact .inr ⟨s, List.mem_cons_self, by omega⟩
        · exact .inl (by omega)
      · exact .inr ⟨t, List.mem_cons_of_mem _ ht, eq⟩

theorem Score.plain_collapse {floor : Score} (nonneg : floor.IsNonneg) (s : Score) :
    (if s ≤ floor then 0 else s : Score).IsPlain := by
  split
  · exact fun _ => rfl
  · next above =>
    intro zero
    rw [le_iff, zero] at above
    exact absurd nonneg above

theorem Settles.eq_of_least {floor old new least : Int} {seen : Int → Prop}
    (h : Settles floor old new seen) (le : least ≤ old) (lower : ∀ s, seen s → least ≤ s)
    (attained : least = old ∨ seen least) : new = if least ≤ floor then 0 else least := by
  rcases h with ⟨rfl, low⟩ | ⟨above, below, all, reached⟩
  · have collapse : least ≤ floor := by
      rcases low with old | ⟨s, hs, low⟩
      · omega
      · have := lower s hs
        omega
    rw [if_pos collapse]
  · have most : least ≤ new := by
      rcases reached with rfl | hs
      · exact le
      · exact lower new hs
    have least' : new ≤ least := by
      rcases attained with rfl | hs
      · exact below
      · exact all least hs
    rw [if_neg (by omega)]
    omega

namespace Validation

/-! ## Plain enumeration -/

def leastSimilarity (d : Dataset) (premise : Scores) (old : Score) (i : Nat) : Score :=
  ((d.satisfyingPairs premise).map fun pair => (d.pairProfile pair).score i).foldl
    Score.smaller old

def generalizations (l : Lattice) (premise : Scores) : List Node :=
  (l.claims.entries.filter fun e =>
    (e.1.premise l.claims.width).generalizes premise &&
      !(e.1.premise l.claims.width).same premise).map (·.2)

def guaranteed (l : Lattice) (premise : Scores) (i : Nat) : Score :=
  ((generalizations l premise).map fun n => n.bound i).foldl Score.larger (premise.score i)

def enumerated (d : Dataset) (l : Lattice) (premise : Scores) (old : Score) (i : Nat) : Score :=
  if leastSimilarity d premise old i ≤ guaranteed l premise i then 0
  else leastSimilarity d premise old i

def enumeratedCorrection? (d : Dataset) (l : Lattice) (premise : Scores) (n : Node) (i : Nat) :
    Option Correction :=
  if (enumerated d l premise (n.bound i) i).same (n.bound i) then none
  else some ⟨i, n.bound i, enumerated d l premise (n.bound i) i⟩

/-- The survey of a candidate is final while there are groups left. -/
def EndsEarly (d : Dataset) (minSupport : Nat) (l : Lattice) (c : Candidate) : Prop :=
  ∃ front back, d.satisfyingGroups c.premise = front ++ back ∧ back ≠ [] ∧
    (front.foldl (Survey.visit d) (begun l c)).isFinal minSupport = true

/-- What validation says about a node is what plain enumeration says. -/
structure Enumerated (d : Dataset) (minSupport : Nat) (l : Lattice) (c : Candidate) (n : Node)
    (v : Validation) : Prop where
  corrections : v.corrections = c.indices.filterMap (enumeratedCorrection? d l c.premise n)
  increasing : (v.corrections.map Correction.index).Pairwise (· < ·)
  unsupported : v.isUnsupported = true ↔ (d.satisfyingPairs c.premise).length < minSupport
  support_le : v.support ≤ (d.satisfyingPairs c.premise).length
  support_eq : v.support < minSupport ∨ ¬EndsEarly d minSupport l c →
    v.support = (d.satisfyingPairs c.premise).length

variable {d : Dataset} {ok : Allowed} {l : Lattice} {c : Candidate} {n : Node} {minSupport : Nat}
  {premise : Scores} {i : Nat}

theorem index_enumeratedCorrection? {k : Correction}
    (h : enumeratedCorrection? d l premise n i = some k) : k.index = i := by
  rw [enumeratedCorrection?] at h
  split at h
  · cases h
  · rw [← Option.some.inj h]

theorem increasing_corrections {indices : Indices} (increasing : indices.Pairwise (· < ·)) :
    ((indices.filterMap (enumeratedCorrection? d l premise n)).map
      Correction.index).Pairwise (· < ·) := by
  rw [List.pairwise_map, List.pairwise_filterMap]
  refine increasing.imp fun {i j} lt k hk k' hk' => ?_
  rw [index_enumeratedCorrection? hk, index_enumeratedCorrection? hk']
  exact lt

theorem inUnit_of_found (hl : l.claims.Sound ok) {p : Path} (found : l.find? p = some n) (i : Nat) :
    (n.bound i).inUnit = true := by
  rw [← ClaimLattice.bound_of_find? found]
  exact hl.bound_inUnit p i

theorem leastSimilarity_spec (hd : d.Sound) (premise : Scores) {old : Score}
    (unit : old.inUnit = true) (i : Nat) :
    (leastSimilarity d premise old i).inUnit = true ∧
      (leastSimilarity d premise old i).height ≤ old.height ∧
      (∀ s, Probe.Similarities i (fun v => v ∈ d.pairProfiles ∧ v.satisfies premise = true) s →
        (leastSimilarity d premise old i).height ≤ s) ∧
      ((leastSimilarity d premise old i).height = old.height ∨
        Probe.Similarities i (fun v => v ∈ d.pairProfiles ∧ v.satisfies premise = true)
          (leastSimilarity d premise old i).height) := by
  have mem : ∀ {pair}, pair ∈ d.satisfyingPairs premise →
      d.pairProfile pair ∈ d.pairProfiles ∧ (d.pairProfile pair).satisfies premise = true :=
    fun h => ⟨List.mem_map_of_mem (List.mem_filter.mp h).1, (List.mem_filter.mp h).2⟩
  obtain ⟨inside, le, lower, attained⟩ := Score.foldl_smaller
    ((d.satisfyingPairs premise).map fun pair => (d.pairProfile pair).score i) old unit
    fun s hs => by
      obtain ⟨pair, hp, rfl⟩ := List.mem_map.mp hs
      exact (hd.numbered_of_mem (mem hp).1).score i
  refine ⟨inside, le, ?_, attained.imp_right ?_⟩
  · rintro s ⟨v, ⟨hv, sat⟩, rfl⟩
    obtain ⟨pair, hp, rfl⟩ := List.mem_map.mp hv
    exact lower _ (List.mem_map_of_mem (f := fun pair => (d.pairProfile pair).score i)
      (List.mem_filter.mpr ⟨hp, sat⟩))
  · rintro ⟨s, hs, eq⟩
    obtain ⟨pair, hp, rfl⟩ := List.mem_map.mp hs
    exact ⟨d.pairProfile pair, mem hp, eq.symm⟩

theorem mem_generalizations_iff (hl : l.claims.Sound ok) (hp : premise.IsVector l.claims.width)
    (n : Node) : n ∈ generalizations l premise ↔
      ∃ g, (g, n) ∈ l.claims.entries ∧ premise.Reaches g ∧ g ≠ premise.constraints := by
  have test : ∀ e ∈ l.claims.entries,
      ((e.1.premise l.claims.width).generalizes premise &&
        !(e.1.premise l.claims.width).same premise) = true ↔
          premise.Reaches e.1 ∧ e.1 ≠ premise.constraints := by
    intro e he
    have proper := hl.mem_entries he
    have general := proper.isVector hl.positive hl.within
    rw [Bool.and_eq_true, Bool.not_eq_true', ← Bool.not_eq_true, general.generalizes_iff hp,
      general.same_iff hp, proper.constraints_premise hl.positive hl.within,
      Scores.generalizes_constraints_iff]
  rw [generalizations, List.mem_map]
  constructor
  · rintro ⟨⟨g, m⟩, he, rfl⟩
    obtain ⟨he, strict⟩ := List.mem_filter.mp he
    exact ⟨g, he, (test _ he).mp strict⟩
  · rintro ⟨g, he, strict⟩
    exact ⟨(g, n), List.mem_filter.mpr ⟨he, (test _ he).mpr strict⟩, rfl⟩

theorem height_guaranteed (hl : l.claims.Sound ok) (hp : premise.IsVector l.claims.width)
    (i : Nat) : (guaranteed l premise i).IsNonneg ∧
      (guaranteed l premise i).height = floorHeight l premise i := by
  obtain ⟨inside, own, greatest, attained⟩ := Score.foldl_larger
    ((generalizations l premise).map fun n => n.bound i) (premise.score i) (hp.numbered.score i)
    fun s hs => by
      obtain ⟨n, hn, rfl⟩ := List.mem_map.mp hs
      obtain ⟨g, he, -⟩ := (mem_generalizations_iff hl hp n).mp hn
      exact Score.isNonneg_of_inUnit ((hl.fits _ he).bound_inUnit i)
  refine ⟨inside, Int.le_antisymm ?_ ?_⟩
  · rw [floorHeight]
    rcases attained with eq | ⟨s, hs, eq⟩
    · exact Int.le_trans (Int.le_of_eq eq) (Int.le_max_left _ _)
    · obtain ⟨n, hn, rfl⟩ := List.mem_map.mp hs
      obtain ⟨g, he, reaches, differ⟩ := (mem_generalizations_iff hl hp n).mp hn
      have le := hl.bound_le_inherited hp.numbered reaches differ i
      rw [hl.bound_of_mem he] at le
      exact Int.le_trans (Int.le_of_eq eq) (Int.le_trans le (Int.le_max_right _ _))
  · refine Int.max_le.mpr ⟨own, ?_⟩
    have nonneg := inside.1
    change ((l.claims.inheritedBounds premise).score i).height ≤ _
    rcases hl.inherited_attained hp.numbered i with zero | ⟨g, reaches, differ, eq⟩
    · rw [zero, Score.height_zero]
      exact nonneg
    · by_cases positive : 0 < (l.claims.bound g i).height
      · obtain ⟨n, he, same, -⟩ := hl.exists_of_bound positive
        have mem := (mem_generalizations_iff hl hp n).mpr ⟨g, he, reaches, differ⟩
        rw [eq, ← same]
        exact greatest _ (List.mem_map_of_mem (f := fun n => n.bound i) mem)
      · rw [eq]
        exact Int.le_trans (Int.not_lt.mp positive) nonneg

theorem height_enumerated (hd : d.Sound) (hl : l.claims.Sound ok)
    (hp : premise.IsVector l.claims.width) {old : Score} (unit : old.inUnit = true) {new : Int}
    (settles : Settles (floorHeight l premise i) old.height new
      (Probe.Similarities i fun v => v ∈ d.pairProfiles ∧ v.satisfies premise = true)) :
    (enumerated d l premise old i).height = new := by
  obtain ⟨inside, le, lower, attained⟩ := leastSimilarity_spec hd premise unit i
  obtain ⟨number, floor⟩ := height_guaranteed hl hp i
  rw [settles.eq_of_least le lower attained, ← floor, enumerated]
  by_cases collapse : (leastSimilarity d premise old i).height ≤ (guaranteed l premise i).height
  · rw [if_pos collapse, if_pos ((Score.le_iff _ _).mpr ⟨collapse, number.2⟩), Score.height_zero]
  · rw [if_neg collapse, if_neg fun le => collapse ((Score.le_iff _ _).mp le).1]

theorem plain_enumerated (hl : l.claims.Sound ok) (hp : premise.IsVector l.claims.width)
    (old : Score) (i : Nat) : (enumerated d l premise old i).IsPlain :=
  Score.plain_collapse (height_guaranteed hl hp i).1 _

theorem eq_enumerated (hd : d.Sound) (hl : l.claims.Sound ok)
    (hp : premise.IsVector l.claims.width) {old new : Score} (unit : old.inUnit = true)
    (settles : Settles (floorHeight l premise i) old.height new.height
      (Probe.Similarities i fun v => v ∈ d.pairProfiles ∧ v.satisfies premise = true))
    (plain : new.IsPlain) : new = enumerated d l premise old i := by
  have height := height_enumerated hd hl hp unit settles
  have le := settles.le ((Score.inUnit_iff _).mp unit).1
  have most := (Score.inUnit_iff _).mp unit
  have top := Score.unitHeight_lt_top
  exact plain.ext (plain_enumerated hl hp old i) height.symm (by omega)

end Validation

/-! ## Premises with constraints -/

namespace Probe

structure Plain (p : Probe) : Prop where
  floor : p.floor.IsNonneg
  bound : p.bound.IsPlain

variable {d : Dataset} {p : Probe}

theorem Plain.boundAfter (h : p.Plain) (s : Score) : (p.boundAfter s).IsPlain :=
  Score.plain_collapse h.floor _

theorem Plain.look (h : p.Plain) (lefts : LeftPart) (right : Record) (s : Score) :
    (p.look lefts right s).Plain := by
  rw [Probe.look]
  split
  · exact ⟨h.floor, h.boundAfter s⟩
  · split
    · exact ⟨h.floor, h.boundAfter s⟩
    · exact h

theorem Plain.visit (h : p.Plain) (g : PairGroup) : (p.visit d g).Plain := by
  rw [Probe.visit]
  split
  · exact h
  · rw [Probe.lookAt]
    refine foldUntil_preserves (P := Plain) (fun p part _ hp => ?_) h
    refine foldUntil_preserves (P := Plain) (fun p r _ hp => ?_) hp
    exact hp.look part _ _

end Probe

namespace Validation

variable {d : Dataset} {ok : Allowed} {l : Lattice} {c : Candidate} {n : Node} {minSupport : Nat}

section Run

variable (hd : d.Sound) (hl : l.claims.Sound ok) (width : l.claims.width = d.width)
  (hp : c.premise.IsVector d.width) (inside : ∀ i ∈ c.indices, i < d.width)
  (found : l.find? c.premise.constraints = some n)

include hl hp in
theorem plain_surveyed (d : Dataset) (minSupport : Nat) :
    ∀ p ∈ (surveyed d minSupport l c).probes, p.Plain := by
  rw [surveyed, d.visitGroups_eq_foldUntil]
  refine foldUntil_preserves (P := fun s : Survey => ∀ p ∈ s.probes, p.Plain) ?_ ?_
  · intro s g _ hs p hp
    obtain ⟨q, hq, rfl⟩ := List.mem_map.mp hp
    exact (hs q hq).visit g
  · intro p mem
    obtain ⟨i, -, rfl⟩ := List.mem_map.mp mem
    have nonneg := floor_isNonneg hl hp.numbered i
    exact ⟨nonneg, Score.plain_collapse nonneg _⟩

include hd hl width hp inside found in
theorem corrections_ofSurvey (minSupport : Nat) (constrained : c.premise.constraints ≠ []) :
    (ofSurvey minSupport (surveyed d minSupport l c)).corrections =
      c.indices.filterMap (enumeratedCorrection? d l c.premise n) := by
  obtain ⟨probes, eq, all⟩ :=
    knows_surveyed hd hl hp.length hp.numbered inside minSupport constrained
  have plain := plain_surveyed hl hp d minSupport
  rw [ofSurvey, eq, List.filterMap_map]
  rw [eq] at plain
  refine List.filterMap_congr fun i hi => ?_
  have knows := all i hi
  have old : l.bound c.premise.constraints i = n.bound i := ClaimLattice.bound_of_find? found i
  have settles := knows.settles
  rw [height_floor hl hp.numbered, old] at settles
  have bound := eq_enumerated hd hl (width ▸ hp) (inUnit_of_found hl found i) settles
    (plain _ (List.mem_map_of_mem hi)).bound
  rw [Function.comp_apply, Probe.correction?, enumeratedCorrection?, knows.index, knows.oldBound,
    old, bound]

include hd hp in
theorem support_ofSurvey (l : Lattice) (minSupport : Nat)
    (constrained : c.premise.constraints ≠ []) :
    (surveyed d minSupport l c).support ≤ (d.satisfyingPairs c.premise).length ∧
      ((surveyed d minSupport l c).support < minSupport ∨ ¬EndsEarly d minSupport l c →
        (surveyed d minSupport l c).support = (d.satisfyingPairs c.premise).length) := by
  obtain ⟨front, back, eq, folded, last⟩ := foldUntil_beginning (Survey.isFinal minSupport)
    (Survey.visit d) (d.satisfyingGroups c.premise) (begun l c)
  have counted := Survey.support_foldl d front (begun l c)
  have all := hd.support_eq_sum hp.length hp.numbered constrained
  rw [eq, sumOver_append, d.support_eq] at all
  rw [surveyed, d.visitGroups_eq_foldUntil, folded, all, counted]
  change 0 + _ ≤ _ ∧ (0 + _ < minSupport ∨ _ → 0 + _ = _)
  refine ⟨by omega, fun complete => ?_⟩
  by_cases none : back = []
  · rw [none, sumOver_nil]
    omega
  · have final := last.resolve_left none
    rcases complete with few | late
    · rw [Survey.isFinal, Bool.and_eq_true, Bool.and_eq_true, decide_eq_true_iff, counted] at final
      have enough := final.1.2
      change minSupport ≤ 0 + _ at enough
      omega
    · exact absurd ⟨front, back, eq, none, final⟩ late

end Run

end Validation

/-! ## The empty premise -/

theorem Dataset.lowest_plain_of_build {d : Dataset} {tables : Tables} (loaded : tables.Loaded)
    {columnMatches : List (Nat × Nat × Measure)} {nullEqualsNull : Bool}
    (h : build tables columnMatches nullEqualsNull = .ok d) :
    ∀ i, i < d.width → (d.comparison i).lowest.IsPlain := by
  obtain ⟨-, -, all⟩ := exists_comparison h
  intro i hi
  obtain ⟨left, right, measure, c, -, -, hright, built, eq⟩ := all i hi
  rw [comparison, eq]
  exact Comparison.lowest_plain_of_build (loaded.sound_right.values right hright) built

namespace Validation

variable {d : Dataset} {ok : Allowed} {l : Lattice} {c : Candidate} {n : Node} {minSupport : Nat}

section Run

variable (hd : d.Sound) (lowest : ∀ i, i < d.width → (d.comparison i).lowest.IsPlain)
  (hl : l.claims.Sound ok) (width : l.claims.width = d.width)
  (hp : c.premise.IsVector d.width) (inside : ∀ i ∈ c.indices, i < d.width)
  (found : l.find? c.premise.constraints = some n)

include hd lowest hl width hp inside found

theorem corrections_ofEmptyPremise (minSupport : Nat) (empty : c.premise.constraints = []) :
    (ofEmptyPremise d minSupport n.bounds c.indices).corrections =
      c.indices.filterMap (enumeratedCorrection? d l c.premise n) := by
  have satisfied := satisfies_of_empty hd hp.length empty
  refine List.filterMap_congr fun i hi => ?_
  have unit := inUnit_of_found hl found i
  have range := (Score.inUnit_iff _).mp unit
  have lowestUnit := (hd.comparisons i (inside i hi)).lowest_inUnit
  have height := Score.height_smaller (b := n.bound i) (Score.isNonneg_of_inUnit lowestUnit).2
  have settles := settles_lowest hd (inside i hi) (n.bound i).height satisfied range.1
    range.2
  rw [← height, ← floorHeight_of_empty hl hp.numbered empty i] at settles
  have premise : c.premise.IsVector l.claims.width := width ▸ hp
  rw [enumeratedCorrection?]
  change (if ((d.comparison i).lowest.smaller (n.bound i)).same (n.bound i) = true then none
    else some (Correction.mk i (n.bound i) ((d.comparison i).lowest.smaller (n.bound i)))) = _
  by_cases zero : (n.bound i).height = 0
  · -- A zero with a sign may stay, and is the same as the one that enumeration comes to.
    have least := (Score.inUnit_iff _).mp lowestUnit
    have top := Score.unitHeight_lt_top
    have same := height_enumerated hd hl premise unit settles
    rw [if_pos ((Score.same_iff _ _).mpr ⟨by omega, by omega⟩),
      if_pos ((Score.same_iff _ _).mpr ⟨by omega, by omega⟩)]
  · have plain : ((d.comparison i).lowest.smaller (n.bound i)).IsPlain := by
      rw [Score.smaller]
      split
      · exact fun h => absurd h zero
      · exact lowest i (inside i hi)
    rw [eq_enumerated hd hl premise unit settles plain]

theorem enumerated_ofEmptyPremise (increasing : c.indices.Pairwise (· < ·))
    (empty : c.premise.constraints = []) :
    Enumerated d minSupport l c n (ofEmptyPremise d minSupport n.bounds c.indices) := by
  have all : (d.satisfyingPairs c.premise).length = d.totalPairs := by
    rw [← d.support_eq, Dataset.support,
      List.countP_eq_length.mpr (satisfies_of_empty hd hp.length empty), d.length_pairProfiles]
  have corrections := corrections_ofEmptyPremise hd lowest hl width hp inside found minSupport empty
  refine ⟨corrections, ?_, ?_, Nat.le_of_eq all.symm, fun _ => all.symm⟩
  · rw [corrections]
    exact increasing_corrections increasing
  · rw [all]
    exact decide_eq_true_iff

omit lowest in
theorem enumerated_ofSurvey (increasing : c.indices.Pairwise (· < ·))
    (constrained : c.premise.constraints ≠ []) :
    Enumerated d minSupport l c n (ofSurvey minSupport (surveyed d minSupport l c)) := by
  have corrections := corrections_ofSurvey hd hl width hp inside found minSupport constrained
  have counted := support_ofSurvey hd hp l minSupport constrained
  refine ⟨corrections, ?_, ?_, counted.1, counted.2⟩
  · rw [corrections]
    exact increasing_corrections increasing
  · rw [ofSurvey, decide_eq_true_iff, ← d.support_eq]
    exact support_surveyed hd hp.length hp.numbered constrained

end Run

/-- Validation comes to what plain enumeration of all record pairs comes to. -/
theorem enumerated_run {tables : Tables} (loaded : tables.Loaded)
    {columnMatches : List (Nat × Nat × Measure)} {nullEqualsNull : Bool}
    (data : Dataset.build tables columnMatches nullEqualsNull = .ok d) (hl : l.Built d.width)
    (hp : c.premise.IsVector d.width) (found : l.find? c.premise.constraints = some n)
    (increasing : c.indices.Pairwise (· < ·)) (inside : ∀ i ∈ c.indices, i < d.width)
    (minSupport : Nat) : Enumerated d minSupport l c n (run d minSupport l c) := by
  have hd := Dataset.sound_of_build loaded data
  have lowest := Dataset.lowest_plain_of_build loaded data
  have formed := hl.formed
  have bounds : ((l.find? c.premise.constraints).map Node.bounds).getD #[] = n.bounds := by
    rw [found]
    rfl
  rw [run]
  split
  · next none =>
    rw [← Scores.length_constraints, List.length_eq_zero_iff] at none
    rw [bounds]
    exact enumerated_ofEmptyPremise hd lowest formed.claims formed.width hp inside found increasing
      none
  · next some =>
    rw [← Scores.length_constraints, List.length_eq_zero_iff] at some
    exact enumerated_ofSurvey hd formed.claims formed.width hp inside found increasing some

/-! ## People of one name -/

def namesakeLattice : Lattice :=
  (((Lattice.new 2).setBound (Scores.constraints [0, 0]) 1 0).addIfMinimal
    (Scores.constraints [1, 0]) 1 1).2

theorem namesakeLattice_built : namesakeLattice.Built 2 := by
  have lowered : Lattice.Built 2 ((Lattice.new 2).setBound (Scores.constraints [0, 0]) 1 0) :=
    .setBound .new [0, 0] 1 (by decide)
  have numbered : Scores.Numbered [1, 0] := by decide
  exact lowered.add rfl numbered (by decide) (by decide)

theorem enumerated_run_namesakes :
    Tables.Loaded ⟨namesakes, none⟩ ∧
      Dataset.build ⟨namesakes, none⟩ namesakeMatches true = .ok namesakeData ∧
      namesakeLattice.Built namesakeData.width ∧ Scores.IsVector namesakeData.width [1, 0] ∧
      namesakeLattice.find? (Scores.constraints [1, 0]) = some ⟨1, #[0, 1]⟩ ∧
      [0, 1].Pairwise (· < ·) ∧ (∀ i ∈ [0, 1], i < namesakeData.width) ∧
      Enumerated namesakeData 5 namesakeLattice ⟨[1, 0], 1, [0, 1]⟩ ⟨1, #[0, 1]⟩
        (run namesakeData 5 namesakeLattice ⟨[1, 0], 1, [0, 1]⟩) ∧
      namesakeData.satisfyingPairs [1, 0] = [(0, 0), (0, 1), (1, 0), (1, 1)] ∧
      [0, 1].filterMap (enumeratedCorrection? namesakeData namesakeLattice [1, 0] ⟨1, #[0, 1]⟩) =
        [⟨1, 1, 0⟩] := by
  have premise : Scores.IsVector namesakeData.width [1, 0] := by decide
  have found : namesakeLattice.find? (Scores.constraints [1, 0]) = some ⟨1, #[0, 1]⟩ := rfl
  have inside : ∀ i ∈ [0, 1], i < namesakeData.width := by decide
  exact ⟨namesakes_loaded, build_namesakes, namesakeLattice_built, premise, found, by decide,
    inside, enumerated_run namesakes_loaded build_namesakes namesakeLattice_built
      (c := ⟨[1, 0], 1, [0, 1]⟩) premise found (by decide) inside 5,
    by with_unfolding_all rfl, by with_unfolding_all rfl⟩

end Validation

end MatchingDependencies
