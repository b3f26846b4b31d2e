import Mathlib.Data.List.Perm.Basic
import MatchingDependencies.Proofs.Validation.Outcome

/-!
# The looks of a probe

A probe visits a group of record pairs part by part. A look is what it sees at a
time: the left records of one value in its column match, with one right record.
The looks at a group show each of its pairs once, and all pairs of a look are
equally similar.
-/

set_option autoImplicit false

namespace MatchingDependencies

theorem flatMap_map_swap {α β γ : Type} (as : List α) (bs : List β) (f : α → β → γ) :
    (as.flatMap fun a => bs.map fun b => f a b).Perm
      (bs.flatMap fun b => as.map fun a => f a b) := by
  induction as with
  | nil => simp
  | cons a as ih =>
    rw [List.flatMap_cons]
    exact (ih.append_left _).trans (List.map_append_flatMap_perm bs (f a) _)

theorem sumOver_congr {α : Type} {f g : α → Nat} {as : List α} (h : ∀ a ∈ as, f a = g a) :
    sumOver f as = sumOver g as := by
  induction as with
  | nil => rfl
  | cons a as ih =>
    rw [sumOver_cons, sumOver_cons, h a List.mem_cons_self,
      ih fun b hb => h b (List.mem_cons_of_mem _ hb)]

/-! ## Looks -/

/-- The left records of a part with one right record. -/
structure Look where
  part : LeftPart
  right : Nat

namespace Look

def pairs (x : Look) : List (Nat × Nat) := (Kind.numbers x.part.kinds).map fun l => (l, x.right)

def similarity (d : Dataset) (i : Nat) (x : Look) : Score :=
  x.part.row.similarity ((d.rightRecord x.right).getD (d.columnMatch i).right 0)

def finding (d : Dataset) (x : Look) : Finding := ⟨x.part.kinds, d.rightRecord x.right⟩

structure Sound (d : Dataset) (i : Nat) (x : Look) : Prop where
  kinds : ∀ k ∈ x.part.kinds, k ∈ d.tables.left.kinds ∧
    x.part.row = (d.comparison i).row (k.record.getD (d.columnMatch i).left 0)
  count : x.part.count = Kind.recordCount x.part.kinds

end Look

namespace Dataset

variable {d : Dataset} {i : Nat}

def looks (d : Dataset) (i : Nat) (g : PairGroup) : List Look :=
  (d.leftParts i g.lefts).flatMap fun part => g.rights.map fun r => ⟨part, r⟩

def counterexample (d : Dataset) (pair : Nat × Nat) : Counterexample :=
  ⟨d.leftRecord pair.1, d.rightRecord pair.2⟩

theorem flatMap_leftParts_perm (d : Dataset) (i : Nat) (kinds : List Kind) :
    ((d.leftParts i kinds).flatMap LeftPart.kinds).Perm kinds := by
  rw [leftParts, List.flatMap_map]
  exact flatMap_groupBy_perm _ kinds

theorem flatMap_looks_perm (d : Dataset) (i : Nat) (g : PairGroup) :
    ((d.looks i g).flatMap Look.pairs).Perm (groupPairs g) := by
  have parts : (d.looks i g).flatMap Look.pairs = (d.leftParts i g.lefts).flatMap fun part =>
      g.rights.flatMap fun r => (Kind.numbers part.kinds).map fun l => (l, r) := by
    rw [looks, List.flatMap_assoc]
    refine List.flatMap_congr fun part _ => ?_
    rw [List.flatMap_map]
    rfl
  have swapped : ((d.leftParts i g.lefts).flatMap fun part =>
      g.rights.flatMap fun r => (Kind.numbers part.kinds).map fun l => (l, r)).Perm
        ((d.leftParts i g.lefts).flatMap fun part =>
          (Kind.numbers part.kinds).flatMap fun l => g.rights.map fun r => (l, r)) :=
    List.Perm.flatMap_left _ fun part _ => (flatMap_map_swap _ _ fun l r => (l, r)).symm
  have numbers : ((d.leftParts i g.lefts).flatMap fun part =>
      (Kind.numbers part.kinds).flatMap fun l => g.rights.map fun r => (l, r)) =
        ((d.leftParts i g.lefts).flatMap LeftPart.kinds).flatMap fun k =>
          k.members.toList.flatMap fun l => g.rights.map fun r => (l, r) := by
    rw [List.flatMap_assoc]
    exact List.flatMap_congr fun part _ => by rw [Kind.numbers, List.flatMap_assoc]
  have group : groupPairs g = g.lefts.flatMap fun k =>
      k.members.toList.flatMap fun l => g.rights.map fun r => (l, r) := by
    rw [groupPairs, Kind.numbers, List.flatMap_assoc]
  rw [parts, group]
  refine swapped.trans ?_
  rw [numbers]
  exact (d.flatMap_leftParts_perm i g.lefts).flatMap_right _

theorem sound_of_mem_looks {g : PairGroup} (lefts : ∀ k ∈ g.lefts, k ∈ d.tables.left.kinds)
    {x : Look} (hx : x ∈ d.looks i g) : x.Sound d i := by
  obtain ⟨part, hpart, hx⟩ := List.mem_flatMap.mp hx
  obtain ⟨r, -, rfl⟩ := List.mem_map.mp hx
  constructor
  · intro k hk
    obtain ⟨inside, row⟩ := (d.mem_leftParts hpart).2 k hk
    exact ⟨lefts k inside, row⟩
  · obtain ⟨group, -, rfl⟩ := List.mem_map.mp hpart
    rfl

end Dataset

namespace Look

variable {d : Dataset} {i : Nat} {x : Look}

theorem Sound.leftRecord (h : x.Sound d i) {k : Kind} (hk : k ∈ x.part.kinds) {l : Nat}
    (hl : l ∈ k.members.toList) : d.leftRecord l = k.record :=
  ((Table.mem_members_of_kind (h.kinds k hk).1 l).mp (Array.mem_toList_iff.mp hl)).2

theorem Sound.length_pairs (h : x.Sound d i) : x.pairs.length = x.part.count := by
  rw [pairs, List.length_map, Kind.length_numbers, h.count]

theorem Sound.score_eq (h : x.Sound d i) (hi : i < d.width) :
    ∀ pair ∈ x.pairs, (d.pairProfile pair).score i = x.similarity d i := by
  intro pair hp
  obtain ⟨l, hl, rfl⟩ := List.mem_map.mp hp
  obtain ⟨k, hk, hl⟩ := List.mem_flatMap.mp hl
  rw [Dataset.pairProfile, d.score_profile _ _ hi, h.leftRecord hk hl, similarity,
    (h.kinds k hk).2]
  rfl

theorem Sound.counterexamples_perm (h : x.Sound d i) :
    (x.finding d).counterexamples.Perm (x.pairs.map d.counterexample) := by
  have records :
      ((x.part.kinds.map fun k => k.members.toList.map fun r => (r, k.record)).flatten.map
        fun e => Counterexample.mk e.2 (d.rightRecord x.right)) = x.pairs.map d.counterexample := by
    rw [pairs, Kind.numbers, ← List.flatMap_def, List.map_flatMap, List.map_map, List.map_flatMap]
    refine List.flatMap_congr fun k hk => ?_
    rw [List.map_map]
    refine List.map_congr_left fun l hl => ?_
    simp only [Function.comp_apply, Dataset.counterexample, h.leftRecord hk hl]
  rw [← records]
  exact (mergeAll_perm _).map _

end Look

/-! ## Probes -/

theorem foldUntil_map {σ α β : Type} (isFinal : σ → Bool) (step : σ → β → σ) (f : α → β)
    (as : List α) (s : σ) :
    foldUntil isFinal step (as.map f) s = foldUntil isFinal (fun s a => step s (f a)) as s := by
  induction as generalizing s with
  | nil => rfl
  | cons a as ih => rw [List.map_cons, foldUntil, foldUntil, ih]

namespace Probe

variable {d : Dataset} {i : Nat} {p : Probe}

def take (d : Dataset) (i : Nat) (p : Probe) (x : Look) : Probe :=
  p.look x.part (d.rightRecord x.right) (x.similarity d i)

theorem visit_eq_foldUntil (h : p.index = i) (g : PairGroup) :
    p.visit d g = foldUntil isSettled (take d i) (d.looks i g) p := by
  rw [Probe.visit]
  split
  · next settled => exact (foldUntil_of_isFinal isSettled _ _ p settled).symm
  · rw [Dataset.looks, foldUntil_flatMap, Probe.lookAt, h]
    simp only [foldUntil_map]
    rfl

theorem look_keeps (p : Probe) (lefts : LeftPart) (right : Record) (s : Score) :
    (p.look lefts right s).index = p.index ∧ (p.look lefts right s).oldBound = p.oldBound := by
  rw [Probe.look]
  split
  · exact ⟨rfl, rfl⟩
  · split <;> exact ⟨rfl, rfl⟩

theorem foldUntil_keeps (p : Probe) (xs : List Look) :
    (foldUntil isSettled (take d i) xs p).index = p.index ∧
      (foldUntil isSettled (take d i) xs p).oldBound = p.oldBound := by
  refine foldUntil_preserves (P := fun q : Probe => q.index = p.index ∧ q.oldBound = p.oldBound)
    (fun q x _ hq => ?_) ⟨rfl, rfl⟩
  have kept := look_keeps q x.part (d.rightRecord x.right) (x.similarity d i)
  exact ⟨kept.1.trans hq.1, kept.2.trans hq.2⟩

/-- Group by group a probe takes all looks until it is settled. -/
theorem foldl_visit (h : p.index = i) (groups : List PairGroup) :
    groups.foldl (fun p g => p.visit d g) p =
      foldUntil isSettled (take d i) (groups.flatMap (d.looks i)) p := by
  induction groups generalizing p with
  | nil => rfl
  | cons g groups ih =>
    have kept := (foldUntil_keeps (d := d) (i := i) p (d.looks i g)).1.trans h
    rw [List.foldl_cons, visit_eq_foldUntil h, ih kept, List.flatMap_cons, foldUntil_append]

structure Took (d : Dataset) (i : Nat) (p : Probe) (xs : List Look) (q : Probe) : Prop where
  oldBound : q.oldBound = p.oldBound
  findings : q.findings.toList = p.findings.toList ++
    (xs.filter fun x => x.similarity d i < p.oldBound).map (Look.finding d)
  found : q.found = p.found +
    sumOver (fun x : Look => x.part.count) (xs.filter fun x => x.similarity d i < p.oldBound)

theorem took_take (p : Probe) (x : Look) : Took d i p [x] (p.take d i x) := by
  rw [take, Probe.look]
  by_cases short : x.similarity d i < p.oldBound
  · rw [if_pos short]
    constructor
    · rfl
    · simp [short, Look.finding]
    · simp [short]
  · rw [if_neg short]
    split
    · constructor
      · rfl
      · simp [short]
      · simp [short]
    · constructor
      · rfl
      · simp [short]
      · simp [short]

theorem took_foldl (p : Probe) (xs : List Look) : Took d i p xs (xs.foldl (take d i) p) := by
  induction xs generalizing p with
  | nil =>
    constructor
    · rfl
    · simp
    · rfl
  | cons x xs ih =>
    have first := took_take (d := d) (i := i) p x
    have rest := ih (p.take d i x)
    have split : (x::xs).filter (fun x => x.similarity d i < p.oldBound) =
        [x].filter (fun x => x.similarity d i < p.oldBound) ++
          xs.filter fun x => x.similarity d i < p.oldBound := by
      rw [← List.filter_append, List.singleton_append]
    constructor
    · exact rest.oldBound.trans first.oldBound
    · rw [List.foldl_cons, rest.findings, first.findings, first.oldBound, split, List.map_append,
        List.append_assoc]
    · rw [List.foldl_cons, rest.found, first.found, first.oldBound, split, sumOver_append,
        Nat.add_assoc]

end Probe

theorem Survey.probes_foldl (d : Dataset) (groups : List PairGroup) (s : Survey) :
    (groups.foldl (Survey.visit d) s).probes =
      s.probes.map fun p => groups.foldl (fun p g => p.visit d g) p := by
  induction groups generalizing s with
  | nil => simp
  | cons g groups ih =>
    rw [List.foldl_cons, ih, Survey.visit, List.map_map]
    rfl

end MatchingDependencies
