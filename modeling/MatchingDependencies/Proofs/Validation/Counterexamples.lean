import Mathlib.Data.List.Nodup
import MatchingDependencies.Proofs.Validation.Enumeration
import MatchingDependencies.Proofs.Validation.Looks

/-!
# The counterexamples that validation finds

A probe looks at all pairs that satisfy the premise until its bound is settled.
So what it has found is the part of the satisfying pairs that fall short of the
old bound and stand before the end of its looks, each of them once.
-/

set_option autoImplicit false

namespace MatchingDependencies

open MatchingDependencies.Path (Allowed)
open MatchingDependencies.Discovery (namesakes namesakes_loaded namesakeMatches namesakeData
  build_namesakes)

/-! ## What a probe shows -/

namespace Dataset

variable {d : Dataset} {i : Nat}

def violators (d : Dataset) (premise : Scores) (bound : Score) (i : Nat) : List (Nat × Nat) :=
  (d.satisfyingPairs premise).filter fun pair => (d.pairProfile pair).score i < bound

theorem filter_pairs (hi : i < d.width) (old : Score) {xs : List Look}
    (sound : ∀ x ∈ xs, x.Sound d i) :
    (xs.flatMap Look.pairs).filter (fun pair => (d.pairProfile pair).score i < old) =
      (xs.filter fun x => x.similarity d i < old).flatMap Look.pairs := by
  induction xs with
  | nil => rfl
  | cons x xs ih =>
    have score := (sound x List.mem_cons_self).score_eq hi
    have rest := ih fun y hy => sound y (List.mem_cons_of_mem _ hy)
    rw [List.flatMap_cons, List.filter_append, rest]
    by_cases short : x.similarity d i < old
    · have all : x.pairs.filter (fun pair => (d.pairProfile pair).score i < old) = x.pairs := by
        rw [List.filter_eq_self]
        intro pair hp
        rw [score pair hp, decide_eq_true short]
      rw [all, List.filter_cons_of_pos (by simpa using short), List.flatMap_cons]
    · have none : x.pairs.filter (fun pair => (d.pairProfile pair).score i < old) = [] := by
        rw [List.filter_eq_nil_iff]
        intro pair hp
        rw [score pair hp, decide_eq_true_iff]
        exact short
      rw [none, List.filter_cons_of_neg (by simpa using short), List.nil_append]

end Dataset

namespace Probe

/-- A probe shows some pairs that fall short of the old bound: all of them, or
enough to be settled. -/
structure Shows (d : Dataset) (premise : Scores) (old : Score) (i : Nat) (p : Probe)
    (shown : List (Nat × Nat)) : Prop where
  distinct : shown.Nodup
  violating : ∀ pair ∈ shown, pair ∈ d.violators premise old i
  all : p.isSettled = true ∨ ∀ pair ∈ d.violators premise old i, pair ∈ shown
  found : p.found = shown.length
  counterexamples : (p.findings.toList.flatMap Finding.counterexamples).Perm
    (shown.map d.counterexample)

variable {d : Dataset} {i : Nat} {premise : Scores}

theorem exists_shows (hd : d.Sound) (hi : i < d.width) (len : premise.length = d.width)
    (numbered : premise.Numbered) (constrained : premise.constraints ≠ []) {p : Probe}
    (findings : p.findings = #[]) (found : p.found = 0) :
    ∃ shown, (foldUntil isSettled (take d i) ((d.satisfyingGroups premise).flatMap (d.looks i))
      p).Shows d premise p.oldBound i shown := by
  obtain ⟨front, back, eq, folded, last⟩ := foldUntil_beginning isSettled (take d i)
    ((d.satisfyingGroups premise).flatMap (d.looks i)) p
  have sound : ∀ x ∈ front ++ back, x.Sound d i := by
    intro x hx
    rw [← eq] at hx
    obtain ⟨g, hg, hx⟩ := List.mem_flatMap.mp hx
    exact d.sound_of_mem_looks (fun k hk => (hd.mem_satisfyingGroups len numbered hg k hk).1) hx
  have pairs : ((front ++ back).flatMap Look.pairs).Perm (d.satisfyingPairs premise) := by
    rw [← eq, List.flatMap_assoc]
    exact (List.Perm.flatMap_left _ fun g _ => d.flatMap_looks_perm i g).trans
      (hd.satisfyingGroups_perm len numbered constrained)
  -- What the looks find, front and back, are the violating pairs in another order.
  have violators := pairs.filter fun pair => (d.pairProfile pair).score i < p.oldBound
  rw [d.filter_pairs hi p.oldBound sound, List.filter_append, List.flatMap_append] at violators
  have took := took_foldl (d := d) (i := i) p front
  have before : ∀ x ∈ front.filter (fun x => x.similarity d i < p.oldBound), x.Sound d i :=
    fun x hx => sound x (List.mem_append_left _ (List.mem_filter.mp hx).1)
  rw [folded]
  refine ⟨(front.filter fun x => x.similarity d i < p.oldBound).flatMap Look.pairs, ?_⟩
  constructor
  · have distinct := violators.nodup_iff.mpr ((d.nodup_satisfyingPairs premise).filter _)
    exact (List.nodup_append.mp distinct).1
  · exact fun pair hp => violators.mem_iff.mp (List.mem_append_left _ hp)
  · rcases last with rfl | settled
    · refine .inr fun pair hp => ?_
      simpa using violators.mem_iff.mpr hp
    · exact .inl settled
  · rw [took.found, found, Nat.zero_add, length_flatMap_eq_sumOver]
    exact sumOver_congr fun x hx => (before x hx).length_pairs.symm
  · rw [took.findings, findings, List.map_flatMap]
    simp only [List.nil_append, List.flatMap_map]
    exact List.Perm.flatMap_left _ fun x hx => (before x hx).counterexamples_perm

end Probe

/-! ## What validation shows -/

namespace Validation

/-- The counterexamples of a validation are real, and enough for every bound. -/
structure Evident (d : Dataset) (c : Candidate) (n : Node) (v : Validation) : Prop where
  real : ∀ k ∈ v.counterexamples, ∃ i ∈ c.indices, ∃ pair ∈ d.satisfyingPairs c.premise,
    (d.pairProfile pair).score i < n.bound i ∧ d.counterexample pair = k
  sufficient : ∀ i ∈ c.indices, ∃ shown : List (Nat × Nat), shown.Nodup ∧
    (∀ pair ∈ shown, pair ∈ d.violators c.premise (n.bound i) i) ∧
    (shown.map d.counterexample).Subperm v.counterexamples ∧
    ((∀ pair ∈ d.violators c.premise (n.bound i) i, pair ∈ shown) ∨
      (⟨i, n.bound i, 0⟩ : Correction) ∈ v.corrections ∧ enoughCounterexamples ≤ shown.length)
  lowered : ∀ k ∈ v.corrections, k.newBound.isZero = false →
    ∀ pair ∈ d.violators c.premise (n.bound k.index) k.index,
      d.counterexample pair ∈ v.counterexamples

variable {d : Dataset} {ok : Allowed} {l : Lattice} {c : Candidate} {n : Node} {minSupport : Nat}

def finished (d : Dataset) (l : Lattice) (c : Candidate) (i : Nat) : Probe :=
  foldUntil Probe.isSettled (Probe.take d i) ((d.satisfyingGroups c.premise).flatMap (d.looks i))
    (probe c.premise (l.inheritedBounds c.premise)
      (((l.find? c.premise.constraints).map Node.bounds).getD #[]) i)

/-- Although the survey ends early, its probes have taken all looks, since there
is nothing left for them to learn. -/
theorem probes_surveyed (d : Dataset) (minSupport : Nat) (l : Lattice) (c : Candidate) :
    (surveyed d minSupport l c).probes = c.indices.map (finished d l c) := by
  obtain ⟨front, back, eq, folded, last⟩ := foldUntil_beginning (Survey.isFinal minSupport)
    (Survey.visit d) (d.satisfyingGroups c.premise) (begun l c)
  rw [surveyed, d.visitGroups_eq_foldUntil, folded]
  rcases last with rfl | final
  · rw [List.append_nil] at eq
    rw [Survey.probes_foldl, begun, List.map_map, ← eq]
    exact List.map_congr_left fun i _ => Probe.foldl_visit rfl _
  · rw [Survey.isFinal, Bool.and_eq_true, Bool.and_eq_true, List.all_eq_true] at final
    have settled := final.1.1
    rw [Survey.probes_foldl, begun, List.map_map] at settled ⊢
    refine List.map_congr_left fun i hi => ?_
    have here := settled _ (List.mem_map_of_mem hi)
    rw [Function.comp_apply, Probe.foldl_visit rfl] at here ⊢
    rw [finished, eq, List.flatMap_append, foldUntil_append]
    exact (foldUntil_of_isFinal _ _ _ _ here).symm

section Run

variable (hd : d.Sound) (hl : l.claims.Sound ok) (hp : c.premise.IsVector d.width)
  (inside : ∀ i ∈ c.indices, i < d.width) (found : l.find? c.premise.constraints = some n)
  (constrained : c.premise.constraints ≠ [])

include found in
theorem finished_keeps (i : Nat) :
    (finished d l c i).index = i ∧ (finished d l c i).oldBound = n.bound i := by
  have kept := Probe.foldUntil_keeps (d := d) (i := i)
    (probe c.premise (l.inheritedBounds c.premise)
      (((l.find? c.premise.constraints).map Node.bounds).getD #[]) i)
    ((d.satisfyingGroups c.premise).flatMap (d.looks i))
  rw [finished]
  refine ⟨kept.1, kept.2.trans ?_⟩
  rw [found]
  rfl

include hd hp inside found constrained in
theorem exists_shown {i : Nat} (hi : i ∈ c.indices) :
    ∃ shown, (finished d l c i).Shows d c.premise (n.bound i) i shown := by
  have old : (probe c.premise (l.inheritedBounds c.premise)
      (((l.find? c.premise.constraints).map Node.bounds).getD #[]) i).oldBound = n.bound i := by
    rw [found]
    rfl
  rw [← old]
  exact Probe.exists_shows hd (inside i hi) hp.length hp.numbered constrained rfl rfl

theorem counterexamples_ofSurvey (minSupport : Nat) (s : Survey) :
    (ofSurvey minSupport s).counterexamples =
      s.probes.flatMap fun p => p.findings.toList.flatMap Finding.counterexamples := by
  rw [counterexamples, ofSurvey, List.flatMap_assoc]

include found in
theorem eq_of_correction? {i : Nat} {k : Correction}
    (h : (finished d l c i).correction? = some k) :
    k.index = i ∧ k.newBound = (finished d l c i).bound := by
  rw [Probe.correction?] at h
  split at h
  · cases h
  · obtain rfl := Option.some.inj h
    exact ⟨(finished_keeps found i).1, rfl⟩

include hd hl hp found in
theorem collapsed_of_settled {i : Nat} (hi : i ∈ c.indices) {shown : List (Nat × Nat)}
    (shows : (finished d l c i).Shows d c.premise (n.bound i) i shown)
    (settled : (finished d l c i).isSettled = true) :
    (⟨i, n.bound i, 0⟩ : Correction) ∈
        (ofSurvey minSupport (surveyed d minSupport l c)).corrections ∧
      enoughCounterexamples ≤ shown.length := by
  have plain := plain_surveyed hl hp d minSupport
  rw [probes_surveyed] at plain
  obtain ⟨index, old⟩ := finished_keeps (d := d) found i
  rw [Probe.isSettled, Bool.and_eq_true, Score.isZero_iff, decide_eq_true_iff, shows.found]
    at settled
  obtain ⟨zero, enough⟩ := settled
  have bound := (plain _ (List.mem_map_of_mem hi)).bound zero
  refine ⟨?_, enough⟩
  have some : 0 < shown.length := Nat.lt_of_lt_of_le (by decide) enough
  obtain ⟨pair, mem⟩ := List.exists_mem_of_length_pos some
  obtain ⟨satisfying, short⟩ := List.mem_filter.mp (shows.violating pair mem)
  have profile := List.mem_map_of_mem (f := d.pairProfile) (List.mem_filter.mp satisfying).1
  have nonneg := (hd.numbered_of_mem profile).demand_nonneg i
  have less := ((Score.lt_iff _ _).mp (of_decide_eq_true short)).1
  rw [ofSurvey, probes_surveyed, List.filterMap_map]
  refine List.mem_filterMap.mpr ⟨i, hi, ?_⟩
  rw [Function.comp_apply, Probe.correction?, bound, index, old, if_neg]
  rw [Score.same_iff, Score.height_zero]
  change 0 ≤ ((d.pairProfile pair).score i).height at nonneg
  omega

include hd hl hp inside found constrained

theorem evident_ofSurvey :
    Evident d c n (ofSurvey minSupport (surveyed d minSupport l c)) := by
  have all := counterexamples_ofSurvey minSupport (surveyed d minSupport l c)
  rw [probes_surveyed] at all
  have listed : ∀ {i shown}, i ∈ c.indices →
      (finished d l c i).Shows d c.premise (n.bound i) i shown →
        (shown.map d.counterexample).Subperm
          (ofSurvey minSupport (surveyed d minSupport l c)).counterexamples := by
    intro i shown hi shows
    rw [all, List.flatMap_def]
    exact ⟨_, shows.counterexamples,
      List.sublist_flatten_of_mem (List.mem_map_of_mem (List.mem_map_of_mem hi))⟩
  constructor
  · intro k hk
    rw [all] at hk
    obtain ⟨p, hp', hk⟩ := List.mem_flatMap.mp hk
    obtain ⟨i, hi, rfl⟩ := List.mem_map.mp hp'
    obtain ⟨shown, shows⟩ := exists_shown hd hp inside found constrained hi
    obtain ⟨pair, mem, rfl⟩ := List.mem_map.mp (shows.counterexamples.mem_iff.mp hk)
    obtain ⟨satisfies, short⟩ := List.mem_filter.mp (shows.violating pair mem)
    exact ⟨i, hi, pair, satisfies, of_decide_eq_true short, rfl⟩
  · intro i hi
    obtain ⟨shown, shows⟩ := exists_shown hd hp inside found constrained hi
    refine ⟨shown, shows.distinct, shows.violating, listed hi shows, ?_⟩
    rcases shows.all with settled | all
    · exact .inr (collapsed_of_settled hd hl hp found hi shows settled)
    · exact .inl all
  · intro k hk nonzero pair mem
    rw [ofSurvey, probes_surveyed, List.filterMap_map] at hk
    obtain ⟨i, hi, eq⟩ := List.mem_filterMap.mp hk
    obtain ⟨shown, shows⟩ := exists_shown hd hp inside found constrained hi
    obtain ⟨index, bound⟩ := eq_of_correction? found eq
    -- A bound that is not zero was not settled, so everything that falls short was shown.
    have all := shows.all.resolve_left fun settled => by
      rw [Probe.isSettled, ← bound, nonzero] at settled
      cases settled
    rw [index] at mem
    exact (listed hi shows).subset (List.mem_map_of_mem (all pair mem))

end Run

/-- Every counterexample that validation finds is a pair that satisfies the
premise and falls short of a bound. For every bound all such pairs are found,
unless the bound has collapsed to zero and there are enough of them. -/
theorem evident_run {tables : Tables} (loaded : tables.Loaded)
    {columnMatches : List (Nat × Nat × Measure)} {nullEqualsNull : Bool}
    (data : Dataset.build tables columnMatches nullEqualsNull = .ok d) (hl : l.Built d.width)
    (hp : c.premise.IsVector d.width) (found : l.find? c.premise.constraints = some n)
    (constrained : c.premise.cardinality ≠ 0) (inside : ∀ i ∈ c.indices, i < d.width)
    (minSupport : Nat) : Evident d c n (run d minSupport l c) := by
  have hd := Dataset.sound_of_build loaded data
  rw [run, if_neg constrained]
  rw [← Scores.length_constraints, Ne, List.length_eq_zero_iff] at constrained
  exact evident_ofSurvey hd hl.formed.claims hp inside found constrained

theorem evident_run_namesakes :
    Tables.Loaded ⟨namesakes, none⟩ ∧
      Dataset.build ⟨namesakes, none⟩ namesakeMatches true = .ok namesakeData ∧
      namesakeLattice.Built namesakeData.width ∧ Scores.IsVector namesakeData.width [1, 0] ∧
      namesakeLattice.find? (Scores.constraints [1, 0]) = some ⟨1, #[0, 1]⟩ ∧
      Scores.cardinality [1, 0] ≠ 0 ∧ (∀ i ∈ [0, 1], i < namesakeData.width) ∧
      Evident namesakeData ⟨[1, 0], 1, [0, 1]⟩ ⟨1, #[0, 1]⟩
        (run namesakeData 5 namesakeLattice ⟨[1, 0], 1, [0, 1]⟩) ∧
      namesakeData.violators [1, 0] 1 1 = [(0, 1), (1, 0)] := by
  have premise : Scores.IsVector namesakeData.width [1, 0] := by decide
  have found : namesakeLattice.find? (Scores.constraints [1, 0]) = some ⟨1, #[0, 1]⟩ := rfl
  have constrained : Scores.cardinality [1, 0] ≠ 0 := by decide
  have inside : ∀ i ∈ [0, 1], i < namesakeData.width := by decide
  exact ⟨namesakes_loaded, build_namesakes, namesakeLattice_built, premise, found, constrained,
    inside, evident_run namesakes_loaded build_namesakes namesakeLattice_built
      (c := ⟨[1, 0], 1, [0, 1]⟩) premise found constrained inside 5,
    by with_unfolding_all rfl⟩

end Validation

end MatchingDependencies
