import Mathlib.Algebra.Order.BigOperators.Group.Finset
import Mathlib.Data.Finset.Max
import MatchingDependencies.Proofs.Traversal.BatchReworking
import MatchingDependencies.Proofs.Traversal.Grid

/-!
# A potential that every change lowers

A claim can be lowered, raised again when a generalization is lowered, and
lowered once more. But what is lost weighs more than all that it can raise:
the weight of a bound is multiplied with every threshold that its premise meets
less. So a potential falls with every change, and it is bounded by the number of
premises in the grid and of values that bounds can take.
-/

set_option autoImplicit false

namespace MatchingDependencies.Traversal

section Weights

variable {α : Type} [DecidableEq α] {places : Finset α} {rank new old : α → Nat}

theorem sum_lt_of_gains {a : α} {gain loss : Nat} (ha : a ∈ places) (loses : new a + loss ≤ old a)
    (gains : ∀ b ∈ places, new b ≤ old b + gain) (small : places.card * gain < loss) :
    ∑ b ∈ places, new b < ∑ b ∈ places, old b := by
  have others : ∑ b ∈ places.erase a, new b ≤
      ∑ b ∈ places.erase a, old b + places.card * gain := by
    calc _ ≤ ∑ b ∈ places.erase a, (old b + gain) :=
          Finset.sum_le_sum fun b hb => gains b (Finset.mem_of_mem_erase hb)
      _ = ∑ b ∈ places.erase a, old b + (places.erase a).card * gain := by
          rw [Finset.sum_add_distrib, Finset.sum_const_nat fun _ _ => rfl]
      _ ≤ _ := Nat.add_le_add_left (Nat.mul_le_mul_right _ Finset.card_erase_le) _
  rw [← Finset.add_sum_erase places new ha, ← Finset.add_sum_erase places old ha]
  omega

/-- If something is lost, and everything that rises stands above something lost, then
a sum in which lower places weigh more falls. -/
theorem weighted_sum_lt {top most base : Nat} (ranks : ∀ a ∈ places, rank a ≤ top)
    (le : ∀ a ∈ places, new a ≤ most) (weigh : places.card * most < base)
    (lost : ∃ a ∈ places, new a < old a)
    (raised : ∀ a ∈ places, old a < new a → ∃ b ∈ places, new b < old b ∧ rank b < rank a) :
    ∑ a ∈ places, base^(top - rank a) * new a < ∑ a ∈ places, base^(top - rank a) * old a := by
  have positive : 0 < base := Nat.zero_lt_of_lt weigh
  -- of what is lost, the lowest place weighs most
  obtain ⟨a, ha, least⟩ := Finset.exists_min_image (places.filter fun a => new a < old a) rank
    (lost.imp fun a h => Finset.mem_filter.mpr h)
  obtain ⟨ha, less⟩ := Finset.mem_filter.mp ha
  have lowest : ∀ b ∈ places, old b < new b → rank a < rank b := by
    intro b hb rise
    obtain ⟨c, hc, fall, below⟩ := raised b hb rise
    exact Nat.lt_of_le_of_lt (least c (Finset.mem_filter.mpr ⟨hc, fall⟩)) below
  have loses : base^(top - rank a) * new a + base^(top - rank a) ≤
      base^(top - rank a) * old a := by
    rw [← Nat.mul_succ]
    exact Nat.mul_le_mul_left _ less
  have steady : ∀ b, ¬old b < new b →
      base^(top - rank b) * new b ≤ base^(top - rank b) * old b := fun b still =>
    Nat.mul_le_mul_left _ (Nat.not_lt.mp still)
  rcases Nat.lt_or_eq_of_le (ranks a ha) with below | highest
  · obtain ⟨k, hk⟩ : ∃ k, top - rank a = k+1 := ⟨top - rank a - 1, by omega⟩
    have small : places.card * (base^k * most) < base^(top - rank a) := by
      rw [hk, Nat.pow_succ, Nat.mul_left_comm]
      exact Nat.mul_lt_mul_of_pos_left weigh (Nat.pow_pos positive)
    refine sum_lt_of_gains ha loses (fun b hb => ?_) small
    by_cases rise : old b < new b
    · have higher := lowest b hb rise
      have weight : base^(top - rank b) ≤ base^k := Nat.pow_le_pow_right positive (by omega)
      exact Nat.le_add_left_of_le (Nat.mul_le_mul weight (le b hb))
    · exact Nat.le_add_right_of_le (steady b rise)
  · -- nothing stands above the highest place
    have weight : 0 < base^(top - rank a) := Nat.pow_pos positive
    refine Finset.sum_lt_sum (fun b hb => steady b fun rise => ?_) ⟨a, ha, by omega⟩
    have higher := lowest b hb rise
    have under := ranks b hb
    omega

end Weights

/-! ## Places and values -/

variable {ok : Path.Allowed} {d : Dataset} {q : Setting} {first l l' : Lattice} {p : Path}
  {i : Nat}

def places (d : Dataset) : Finset (Path × Nat) :=
  (d.grid (List.range d.width)).toFinset ×ˢ Finset.range d.width

theorem mem_places (hl : l.Formed d.Natural d.width) (claimed : 0 < (l.bound p i).height) :
    (p, i) ∈ places d := by
  obtain ⟨proper, -, hi⟩ := hl.stored_of_bound claimed
  exact Finset.mem_product.mpr
    ⟨List.mem_toFinset.mpr (Dataset.mem_grid proper), Finset.mem_range.mpr hi⟩

theorem card_places_le (d : Dataset) (l : Lattice) : (places d).card ≤ claimCount d l := by
  rw [places, Finset.card_product, Finset.card_range, claimCount, Nat.mul_comm]
  refine Nat.mul_le_mul_left _ (Nat.le_trans (List.toFinset_card_le _) ?_)
  rw [Dataset.length_grid]
  refine productOver_le fun c _ => ?_
  rw [thresholdCount, Dataset.boundaries, Array.length_toList]
  omega

def heights (d : Dataset) (first : Lattice) : List Int :=
  0 :: (((List.range d.width).flatMap fun c => (d.boundaries c).map Score.height) ++
    first.claims.entries.flatMap fun e => e.2.bounds.toList.map Score.height)

theorem length_entries_le {l : ClaimLattice} (hl : l.Sound ok) : l.entries.length ≤ l.size := by
  have inside : ∀ n ∈ l.entries.map (·.2.number), n ∈ List.range l.size := by
    intro n hn
    obtain ⟨e, he, rfl⟩ := List.mem_map.mp hn
    exact List.mem_range.mpr (hl.fresh e he)
  simpa using hl.numbers.length_le_of_subset inside

theorem length_heights_le (hl : first.Formed ok d.width) :
    (heights d first).length ≤ boundCount d first + 1 := by
  have natural : sumOver (fun c => (d.boundaries c).length) (List.range d.width) ≤
      sumOver (fun c => thresholdCount d first c + 2) (List.range d.width) :=
    sumOver_le fun c _ => by
      rw [thresholdCount, Dataset.boundaries, Array.length_toList]
      omega
  have claimed : sumOver (fun e => e.2.bounds.size) first.claims.entries ≤
      d.width * first.claims.size := by
    calc _ ≤ sumOver (fun _ => d.width) first.claims.entries :=
          sumOver_le fun e he => Nat.le_of_eq ((hl.claims.fits e he).size.trans hl.width)
      _ = d.width * first.claims.entries.length := sumOver_const ..
      _ ≤ _ := Nat.mul_le_mul_left _ (length_entries_le hl.claims)
  rw [boundCount, heights, List.length_cons, List.length_append,
    length_flatMap_eq_sumOver, length_flatMap_eq_sumOver]
  simp only [List.length_map, Array.length_toList]
  omega

def standing (d : Dataset) (first : Lattice) (height : Int) : Nat :=
  (heights d first).countP (· < height)

theorem standing_le {a b : Int} (le : a ≤ b) : standing d first a ≤ standing d first b :=
  List.countP_mono_left fun _ _ less =>
    decide_eq_true (Int.lt_of_lt_of_le (of_decide_eq_true less) le)

theorem standing_lt {a b : Int} (mem : a ∈ heights d first) (lt : a < b) :
    standing d first a < standing d first b :=
  countP_lt (fun _ _ less => decide_eq_true (Int.lt_trans (of_decide_eq_true less) lt)) mem
    (decide_eq_false (Int.lt_irrefl a)) (decide_eq_true lt)

/-! ## Lattices that traversal makes -/

structure Ranged (d : Dataset) (first l : Lattice) : Prop where
  formed : l.Formed d.Natural d.width
  values : ∀ p i, (l.bound p i).height ∈ heights d first
  maxLevel : l.maxLevel ≤ max first.maxLevel d.width

theorem ranged_self (hl : l.Formed d.Natural d.width) : Ranged d l l := by
  refine ⟨hl, fun p i => ?_, Nat.le_max_left ..⟩
  rw [heights, Lattice.bound, ClaimLattice.bound]
  cases found : l.claims.find? p with
  | none => simp
  | some n =>
    by_cases inside : i < n.bounds.size
    · have entry := hl.claims.find?_eq_some_iff.mp found
      have mem : n.bound i ∈ n.bounds.toList := by simp [Node.bound, inside]
      exact List.mem_cons_of_mem _ (List.mem_append_right _
        (List.mem_flatMap.mpr ⟨(p, n), entry, List.mem_map_of_mem mem⟩))
    · dsimp only
      rw [n.bound_of_size_le (by omega), Score.height_zero]
      exact List.mem_cons_self

theorem mem_heights_of_natural {c : Nat} {t : Score} (natural : d.Natural c t) :
    t.height ∈ heights d first := by
  have inside := List.mem_range.mpr (d.natural_within c t natural)
  exact List.mem_cons_of_mem _ (List.mem_append_left _ (List.mem_flatMap.mpr
    ⟨c, inside, List.mem_map_of_mem ((Dataset.mem_boundaries_iff c t).mpr natural)⟩))

theorem mem_heights_of_mem_pairProfiles (hd : d.Sound) {v : Scores} (hv : v ∈ d.pairProfiles)
    (i : Nat) : v.demand i ∈ heights d first := by
  have numbered := hd.numbered_of_mem hv
  have low := numbered.demand_nonneg i
  by_cases zero : v.demand i = 0
  · rw [zero]
    exact List.mem_cons_self
  · refine mem_heights_of_natural (hd.natural_iff (c := i).mpr ⟨Nat.lt_of_not_le fun le => zero ?_,
      ⟨by rw [← Scores.demand]; omega, numbered.demand_lt i⟩, v, hv, rfl⟩)
    rw [Scores.demand, Scores.score_of_le (by rwa [d.length_of_mem_pairProfiles hv]),
      Score.height_zero]

theorem Ranged.reworked (hd : q.data.Sound) {batch : List Candidate} (h : Ranged q.data first l)
    (reworked : Reworked q.data.Natural q batch l l') : Ranged q.data first l' := by
  have most := reworked.maxLevel
  have before := h.maxLevel
  refine ⟨reworked.formed, fun p i => ?_, by omega⟩
  rcases reworked.values p i with zero | ⟨v, hv, seen⟩ | ⟨g, same⟩
  · rw [zero]
    exact List.mem_cons_self
  · rw [← seen]
    exact mem_heights_of_mem_pairProfiles hd hv i
  · rw [same]
    exact h.values g i

/-! ## The potential -/

/-- The weighted sum of the standings of all bounds. -/
def potential (d : Dataset) (first l : Lattice) : Nat :=
  ∑ x ∈ places d,
    growth d first ^ (height d first - d.ascent x.1) * standing d first (l.bound x.1 x.2).height

theorem ascent_le_height (d : Dataset) (first : Lattice) (p : Path) :
    d.ascent p ≤ height d first := by
  refine Nat.le_trans (d.ascent_le p) (sumOver_le fun c _ => ?_)
  rw [thresholdCount, Dataset.boundaries, Array.length_toList]
  omega

theorem card_places_mul_lt (d : Dataset) (first : Lattice) :
    (places d).card * (boundCount d first + 1) < growth d first := by
  have card := card_places_le d first
  exact Nat.mul_lt_mul_of_lt_of_le (by omega) (by omega) (by omega)

theorem standing_le_boundCount (hl : first.Formed ok d.width) (height : Int) :
    standing d first height ≤ boundCount d first + 1 :=
  Nat.le_trans List.countP_le_length (length_heights_le hl)

/-- Where a correction loses something, the potential falls. -/
theorem potential_lt (hd : q.data.Sound) {batch : List Candidate}
    (hf : first.Formed ok q.data.width) (h : Ranged q.data first l)
    (reworked : Reworked q.data.Natural q batch l l')
    (lost : (l'.bound p i).height < (l.bound p i).height) :
    potential q.data first l' < potential q.data first l := by
  have after := h.reworked hd reworked
  have falls : ∀ p i, (l'.bound p i).height < (l.bound p i).height →
      (p, i) ∈ places q.data ∧ standing q.data first (l'.bound p i).height <
        standing q.data first (l.bound p i).height := by
    intro p i less
    have low := after.formed.bound_nonneg p i
    exact ⟨mem_places h.formed (by omega), standing_lt (after.values p i) less⟩
  refine weighted_sum_lt (fun x _ => ascent_le_height q.data first x.1)
    (fun x _ => standing_le_boundCount hf _) (card_places_mul_lt q.data first)
    ⟨(p, i), falls p i lost⟩ fun ⟨g, j⟩ _ rise => ?_
  have higher : (l.bound g j).height < (l'.bound g j).height :=
    Int.not_le.mp fun le => absurd (standing_le le) (Nat.not_le.mpr rise)
  obtain ⟨-, c, -, general, other, -, less, -⟩ := reworked.raised higher
  have low := h.formed.bound_nonneg g j
  have least := after.formed.bound_nonneg c.path j
  have above := (after.formed.stored_of_bound (p := g) (i := j) (by omega)).1
  have below := (h.formed.stored_of_bound (p := c.path) (i := j) (by omega)).1
  obtain ⟨mem, fall⟩ := falls c.path j less
  exact ⟨(c.path, j), mem, fall, hd.ascent_lt below above general other⟩

theorem potential_lt_pow (hf : first.Formed ok d.width) (l : Lattice) :
    potential d first l < growth d first ^ (height d first + 1) := by
  have base := card_places_mul_lt d first
  have positive : 0 < growth d first := Nat.zero_lt_of_lt base
  calc potential d first l
      ≤ ∑ _x ∈ places d, growth d first ^ height d first * (boundCount d first + 1) :=
        Finset.sum_le_sum fun x _ => Nat.mul_le_mul
          (Nat.pow_le_pow_right positive (Nat.sub_le ..)) (standing_le_boundCount hf _)
    _ = growth d first ^ height d first * ((places d).card * (boundCount d first + 1)) := by
        rw [Finset.sum_const_nat fun _ _ => rfl, Nat.mul_left_comm]
    _ < growth d first ^ height d first * growth d first :=
        Nat.mul_lt_mul_of_pos_left base (Nat.pow_pos positive)
    _ = growth d first ^ (height d first + 1) := (Nat.pow_succ ..).symm

end MatchingDependencies.Traversal
