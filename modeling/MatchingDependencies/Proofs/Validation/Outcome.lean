import MatchingDependencies.Proofs.Lattice.Sound
import MatchingDependencies.Proofs.Validation.Probes

/-!
# Validation against all satisfying pairs

Validation finds for every column match what a look at every satisfying record
pair would find, although it stops early: once every bound has collapsed and
enough pairs were counted, the rest changes nothing.
-/

set_option autoImplicit false

namespace MatchingDependencies

namespace Dataset

variable {d : Dataset}

theorem support_eq (d : Dataset) (premise : Scores) :
    d.support premise = (d.satisfyingPairs premise).length := by
  rw [support, pairProfiles, List.countP_map, satisfyingPairs, List.countP_eq_length_filter]
  rfl

namespace Sound

variable (hd : d.Sound) {premise : Scores} (len : premise.length = d.width)
  (numbered : premise.Numbered) (constrained : premise.constraints ≠ [])

include hd len numbered constrained

theorem support_eq_sum :
    d.support premise = sumOver PairGroup.pairCount (d.satisfyingGroups premise) := by
  have perm := hd.satisfyingGroups_perm len numbered constrained
  rw [d.support_eq, ← perm.length_eq, length_flatMap_eq_sumOver]
  exact congrArg (sumOver · _) (funext length_groupPairs)

theorem groupProfile_iff (v : Scores) : (∃ g ∈ d.satisfyingGroups premise, d.GroupProfile g v) ↔
    v ∈ d.pairProfiles ∧ v.satisfies premise = true := by
  have perm := hd.satisfyingGroups_perm len numbered constrained
  have pairs : v ∈ d.pairProfiles ∧ v.satisfies premise = true ↔
      ∃ pair ∈ (d.satisfyingGroups premise).flatMap groupPairs, d.pairProfile pair = v := by
    simp only [perm.mem_iff, satisfyingPairs, List.mem_filter, pairProfiles, List.mem_map]
    constructor
    · rintro ⟨⟨pair, hp, rfl⟩, sat⟩
      exact ⟨pair, ⟨hp, sat⟩, rfl⟩
    · rintro ⟨pair, ⟨hp, sat⟩, rfl⟩
      exact ⟨⟨pair, hp, rfl⟩, sat⟩
  rw [pairs]
  constructor
  · rintro ⟨g, hg, k, hk, r, hr, rfl⟩
    have kind := (hd.mem_satisfyingGroups len numbered hg k hk).1
    obtain ⟨l, hl, eq⟩ := Table.exists_member kind
    refine ⟨(l, r), List.mem_flatMap.mpr ⟨g, hg, ?_⟩, by rw [pairProfile, leftRecord, eq]⟩
    refine List.mem_flatMap.mpr ⟨l, List.mem_flatMap.mpr ⟨k, hk, ?_⟩, List.mem_map_of_mem hr⟩
    exact Array.mem_toList_iff.mpr ((Table.mem_members_of_kind kind l).mpr ⟨hl, eq⟩)
  · rintro ⟨pair, hp, rfl⟩
    obtain ⟨g, hg, hp⟩ := List.mem_flatMap.mp hp
    obtain ⟨l, hl, hp⟩ := List.mem_flatMap.mp hp
    obtain ⟨r, hr, rfl⟩ := List.mem_map.mp hp
    obtain ⟨k, hk, hl⟩ := List.mem_flatMap.mp hl
    have kind := (hd.mem_satisfyingGroups len numbered hg k hk).1
    have eq := ((Table.mem_members_of_kind kind l).mp (Array.mem_toList_iff.mp hl)).2
    exact ⟨g, hg, k, hk, r, hr, by rw [pairProfile, leftRecord, eq]⟩

end Sound

end Dataset

namespace Validation

open MatchingDependencies.Path (Allowed)

/-- What validation says about one claim of a premise: nothing if the bound is
the settled one, and the settled bound otherwise. -/
def Verdict (d : Dataset) (premise : Scores) (floor : Int) (old : Score) (i : Nat) :
    Option Correction → Prop
  | none => Settles floor old.height old.height
      (Probe.Similarities i fun v => v ∈ d.pairProfiles ∧ v.satisfies premise = true)
  | some k => k.index = i ∧ k.oldBound = old ∧ k.newBound.inUnit = true ∧
      Settles floor old.height k.newBound.height
        (Probe.Similarities i fun v => v ∈ d.pairProfiles ∧ v.satisfies premise = true)

def floorHeight (l : Lattice) (premise : Scores) (i : Nat) : Int :=
  max (premise.demand i) ((l.inheritedBounds premise).score i).height

/-- What validation finds out about a candidate. -/
structure Sound (d : Dataset) (minSupport : Nat) (l : Lattice) (c : Candidate)
    (v : Validation) : Prop where
  unsupported : v.isUnsupported = true ↔ d.support c.premise < minSupport
  verdicts : ∃ verdict : Nat → Option Correction, v.corrections = c.indices.filterMap verdict ∧
    ∀ i ∈ c.indices, Verdict d c.premise (floorHeight l c.premise i)
      (l.bound c.premise.constraints i) i (verdict i)
  real : ∀ f ∈ v.findings, ∀ k ∈ f.lefts, k ∈ d.tables.left.kinds ∧
    ∃ r, r < d.rightCount ∧ f.right = d.rightRecord r

variable {d : Dataset} {ok : Allowed} {l : Lattice} {c : Candidate} {minSupport : Nat}

theorem verdict_of_knows {premise : Scores} {i : Nat} {old floor : Score} {p : Probe}
    (h : p.Knows i old floor
      (Probe.Similarities i fun v => v ∈ d.pairProfiles ∧ v.satisfies premise = true)) :
    Verdict d premise floor.height old i p.correction? := by
  rw [Probe.correction?]
  split
  · next same =>
    rw [Score.same_iff, h.oldBound] at same
    have settles := h.settles
    rwa [same.1] at settles
  · exact ⟨h.index, h.oldBound, h.unit, h.settles⟩

def floor (l : Lattice) (premise : Scores) (i : Nat) : Score :=
  (premise.score i).larger ((l.inheritedBounds premise).score i)

def begun (l : Lattice) (c : Candidate) : Survey :=
  ⟨c.indices.map (probe c.premise (l.inheritedBounds c.premise)
    (((l.find? c.premise.constraints).map Node.bounds).getD #[])), 0⟩

def surveyed (d : Dataset) (minSupport : Nat) (l : Lattice) (c : Candidate) : Survey :=
  d.visitGroups c.premise (Survey.isFinal minSupport) (Survey.visit d) (begun l c)

section Run

variable (hd : d.Sound) (hl : l.claims.Sound ok)
  (len : c.premise.length = d.width) (numbered : c.premise.Numbered)
  (inside : ∀ i ∈ c.indices, i < d.width)

section Floor

include hl numbered

theorem height_floor (i : Nat) : (floor l c.premise i).height = floorHeight l c.premise i := by
  have inherited : (l.inheritedBounds c.premise).InUnit := hl.inherited_inUnit c.premise
  exact Score.height_larger (numbered.demand_lt i) (inherited.numbered.demand_lt i)

theorem floor_isNonneg (i : Nat) : (floor l c.premise i).IsNonneg := by
  have inherited : (l.inheritedBounds c.premise).InUnit := hl.inherited_inUnit c.premise
  have high := numbered.score i
  have low := inherited.numbered.score i
  rw [Score.IsNonneg] at high low ⊢
  rw [height_floor hl numbered, floorHeight, Scores.demand]
  omega

theorem knows_begun : (begun l c).Knows c.indices (l.bound c.premise.constraints)
    (floor l c.premise) fun _ => False := by
  let bounds := ((l.find? c.premise.constraints).map Node.bounds).getD #[]
  have old : ∀ i, bounds.getD i 0 = l.bound c.premise.constraints i :=
    l.getD_bounds c.premise.constraints
  refine ⟨probe c.premise (l.inheritedBounds c.premise) bounds, rfl,
    fun i _ => ⟨rfl, old i, rfl, ?_, ?_⟩⟩
  · change (if bounds.getD i 0 ≤ floor l c.premise i then (0 : Score)
      else bounds.getD i 0).inUnit = true
    rw [old]
    split
    · decide
    · exact hl.bound_inUnit c.premise.constraints i
  · have nothing : Probe.Similarities i (fun _ => False) = fun _ => False := by
      funext s
      simp [Probe.Similarities]
    have number := (floor_isNonneg hl numbered i).2
    have start := Settles.start (floor l c.premise i).height
      (l.bound c.premise.constraints i).height
    change Settles _ _ (if bounds.getD i 0 ≤ floor l c.premise i then (0 : Score)
      else bounds.getD i 0).height _
    rw [nothing, old]
    by_cases low : (l.bound c.premise.constraints i).height ≤ (floor l c.premise i).height
    · rw [if_pos low] at start
      rwa [if_pos ((Score.le_iff _ _).mpr ⟨low, number⟩), Score.height_zero]
    · rw [if_neg low] at start
      rwa [if_neg fun le => low ((Score.le_iff _ _).mp le).1]

end Floor

include hd len numbered

theorem support_surveyed (constrained : c.premise.constraints ≠ []) :
    (surveyed d minSupport l c).support < minSupport ↔ d.support c.premise < minSupport := by
  obtain ⟨front, back, eq, folded, last⟩ := foldUntil_beginning (Survey.isFinal minSupport)
    (Survey.visit d) (d.satisfyingGroups c.premise) (begun l c)
  have counted := Survey.support_foldl d front (begun l c)
  have all := hd.support_eq_sum len numbered constrained
  rw [eq, sumOver_append] at all
  rw [surveyed, d.visitGroups_eq_foldUntil, folded, counted, all]
  change 0 + _ < minSupport ↔ _
  rcases last with rfl | final
  · simp
  · rw [Survey.isFinal, Bool.and_eq_true, Bool.and_eq_true, decide_eq_true_iff, counted] at final
    have enough := final.1.2
    change minSupport ≤ 0 + _ at enough
    omega

theorem real_surveyed : ∀ p ∈ (surveyed d minSupport l c).probes, p.Real d := by
  rw [surveyed, d.visitGroups_eq_foldUntil]
  refine foldUntil_preserves (P := fun s : Survey => ∀ p ∈ s.probes, p.Real d) ?_ ?_
  · intro s g hg hs p hp
    obtain ⟨q, hq, rfl⟩ := List.mem_map.mp hp
    have group := hd.mem_satisfyingGroups len numbered hg
    apply (hs q hq).visit (fun k hk => (group k hk).1)
    intro k hk r hr
    rw [(group k hk).2] at hr
    exact List.mem_range.mp (List.mem_filter.mp hr).1
  · intro p hp f hf
    obtain ⟨i, -, rfl⟩ := List.mem_map.mp hp
    simp [probe] at hf

include hl inside

theorem knows_surveyed (minSupport : Nat) (constrained : c.premise.constraints ≠ []) :
    (surveyed d minSupport l c).Knows c.indices (l.bound c.premise.constraints)
      (floor l c.premise) fun v => v ∈ d.pairProfiles ∧ v.satisfies c.premise = true := by
  have seen : (fun v => False ∨ ∃ g ∈ d.satisfyingGroups c.premise, d.GroupProfile g v) =
      fun v => v ∈ d.pairProfiles ∧ v.satisfies c.premise = true := by
    funext v
    rw [false_or, hd.groupProfile_iff len numbered constrained]
  rw [surveyed, d.visitGroups_eq_foldUntil, ← seen]
  have floors := floor_isNonneg hl numbered
  exact foldUntil_knows (fun s g _ seen h => h.visit hd inside floors g)
    (fun s seen more final h => h.of_isFinal floors final more) (knows_begun hl numbered)

theorem sound_ofSurvey (constrained : c.premise.constraints ≠ []) :
    Sound d minSupport l c (ofSurvey minSupport (surveyed d minSupport l c)) := by
  constructor
  · rw [ofSurvey, decide_eq_true_iff]
    exact support_surveyed hd len numbered constrained
  · obtain ⟨probes, eq, all⟩ :=
      knows_surveyed hd hl len numbered inside minSupport constrained
    refine ⟨fun i => (probes i).correction?, ?_, fun i hi => ?_⟩
    · rw [ofSurvey, eq, List.filterMap_map]
      rfl
    · rw [← height_floor hl numbered]
      exact verdict_of_knows (all i hi)
  · intro f hf
    obtain ⟨p, hp, hf⟩ := List.mem_flatMap.mp hf
    exact real_surveyed hd len numbered p hp f (Array.mem_toList_iff.mp hf)

/-! ### The empty premise -/

omit hl numbered inside in
theorem satisfies_of_empty (empty : c.premise.constraints = []) :
    ∀ v ∈ d.pairProfiles, v.satisfies c.premise = true := by
  intro v hv
  rw [hd.satisfies_iff_reaches len hv, empty]
  intro i
  rw [Path.demand_nil]
  exact (hd.numbered_of_mem hv).demand_nonneg i

omit hd len inside in
theorem floorHeight_of_empty (empty : c.premise.constraints = []) (i : Nat) :
    floorHeight l c.premise i = 0 := by
  have demand : c.premise.demand i = 0 := by
    rw [← Scores.demand_constraints, empty, Path.demand_nil]
  have inherited : ((l.inheritedBounds c.premise).score i).height = 0 := by
    rcases hl.inherited_attained numbered i with zero | ⟨g, reaches, differ, eq⟩
    · exact (congrArg Score.height zero).trans Score.height_zero
    · by_cases positive : 0 < (l.claims.bound g i).height
      · have proper := hl.proper_of_bound positive
        have general : g.Generalizes [] := fun j => by
          rw [← empty, Scores.demand_constraints]
          exact reaches j
        have same : g = [] := general.antisymm hl.positive proper trivial fun j => by
          rw [Path.demand_nil]
          exact proper.demand_nonneg hl.positive j
        exact absurd (same.trans empty.symm) differ
      · have nonneg := hl.bound_nonneg g i
        change ((l.claims.inheritedBounds c.premise).score i).height = 0
        rw [eq]
        omega
  rw [floorHeight, demand, inherited, Int.max_self]

omit hl len numbered inside in
theorem settles_lowest {i : Nat} (column : i < d.width) (old : Int)
    (satisfied : ∀ v ∈ d.pairProfiles, v.satisfies c.premise = true) (nonneg : 0 ≤ old)
    (most : old ≤ Score.unitHeight) :
    Settles 0 old (min (d.comparison i).lowest.height old)
      (Probe.Similarities i fun v => v ∈ d.pairProfiles ∧ v.satisfies c.premise = true) := by
  have low := ((Score.inUnit_iff _).mp (hd.comparisons i column).lowest_inUnit).1
  have seen : (d.comparison i).lowest.height < old →
      Probe.Similarities i (fun v => v ∈ d.pairProfiles ∧ v.satisfies c.premise = true)
        (d.comparison i).lowest.height := by
    intro less
    rcases hd.lowest_attained column with ⟨w, hw, attained⟩ | one
    · exact ⟨w, ⟨hw, satisfied w hw⟩, attained.symm⟩
    · omega
  have all : ∀ s, Probe.Similarities i
      (fun v => v ∈ d.pairProfiles ∧ v.satisfies c.premise = true) s →
        (d.comparison i).lowest.height ≤ s := by
    rintro s ⟨v, ⟨hv, -⟩, rfl⟩
    exact hd.lowest_le column hv
  generalize eq : min (d.comparison i).lowest.height old = new
  by_cases zero : new = 0
  · by_cases low : old ≤ 0
    · exact .inl ⟨zero, .inl low⟩
    · exact .inl ⟨zero, .inr ⟨_, seen (by omega), by omega⟩⟩
  · refine .inr ⟨by omega, by omega, fun s hs => ?_, ?_⟩
    · have least := all s hs
      omega
    · by_cases kept : old ≤ (d.comparison i).lowest.height
      · exact .inl (by omega)
      · exact .inr (by
          rw [show new = (d.comparison i).lowest.height by omega]
          exact seen (by omega))

theorem sound_ofEmptyPremise (empty : c.premise.constraints = []) :
    Sound d minSupport l c (ofEmptyPremise d minSupport
      (((l.find? c.premise.constraints).map Node.bounds).getD #[]) c.indices) := by
  have satisfied := satisfies_of_empty hd len empty
  refine ⟨?_, ⟨fun i =>
    if ((d.comparison i).lowest.smaller (l.bound c.premise.constraints i)).same
      (l.bound c.premise.constraints i) then none
    else some ⟨i, l.bound c.premise.constraints i,
      (d.comparison i).lowest.smaller (l.bound c.premise.constraints i)⟩, ?_, ?_⟩, ?_⟩
  · rw [ofEmptyPremise, decide_eq_true_iff, Dataset.support, List.countP_eq_length.mpr satisfied,
      d.length_pairProfiles]
  · simp only [ofEmptyPremise, Lattice.getD_bounds]
  · intro i hi
    have lowestUnit := (hd.comparisons i (inside i hi)).lowest_inUnit
    have lowest := (Score.inUnit_iff _).mp lowestUnit
    have old := (Score.inUnit_iff _).mp (hl.bound_inUnit c.premise.constraints i)
    have smaller := Score.height_smaller (b := l.bound c.premise.constraints i)
      (Score.isNonneg_of_inUnit lowestUnit).2
    have settles := settles_lowest hd (inside i hi) (l.bound c.premise.constraints i).height
      satisfied old.1 old.2
    rw [floorHeight_of_empty hl numbered empty]
    beta_reduce
    split
    · next same =>
      rw [Score.same_iff, smaller] at same
      rwa [same.1] at settles
    · rw [← smaller] at settles
      refine ⟨rfl, rfl, ?_, settles⟩
      change 0 ≤ (l.bound c.premise.constraints i).height ∧ _ at old
      rw [Score.inUnit_iff, smaller]
      omega
  · intro f hf
    simp [ofEmptyPremise] at hf

/-- Validation finds out what the data say about a candidate. -/
theorem sound_run : Sound d minSupport l c (run d minSupport l c) := by
  rw [run]
  split
  · next none =>
    rw [← Scores.length_constraints, List.length_eq_zero_iff] at none
    exact sound_ofEmptyPremise hd hl len numbered inside none
  · next some =>
    rw [← Scores.length_constraints, List.length_eq_zero_iff] at some
    exact sound_ofSurvey hd hl len numbered inside some

end Run

end Validation

end MatchingDependencies
