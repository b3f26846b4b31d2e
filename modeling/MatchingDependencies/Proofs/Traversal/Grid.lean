import MatchingDependencies.Proofs.Dataset.Pairs
import MatchingDependencies.Traversal.StepBound

/-!
# The grid of premises

Premises demand natural thresholds, so they stand in a finite grid. Along the
specializations of a premise ever more thresholds are met, and there are not
more thresholds than the grid has.
-/

set_option autoImplicit false

namespace MatchingDependencies

section Counting

variable {α : Type} {f g : α → Nat} {xs : List α}

theorem sumOver_const (n : Nat) (xs : List α) : sumOver (fun _ => n) xs = n * xs.length := by
  induction xs with
  | nil => rfl
  | cons x xs ih => rw [sumOver_cons, ih, List.length_cons, Nat.mul_succ, Nat.add_comm]

theorem sumOver_le (le : ∀ x ∈ xs, f x ≤ g x) : sumOver f xs ≤ sumOver g xs := by
  induction xs with
  | nil => exact Nat.le_refl _
  | cons x xs ih =>
    rw [sumOver_cons, sumOver_cons]
    exact Nat.add_le_add (le x List.mem_cons_self)
      (ih fun y hy => le y (List.mem_cons_of_mem _ hy))

theorem sumOver_lt (le : ∀ x ∈ xs, f x ≤ g x) {x : α} (hx : x ∈ xs) (lt : f x < g x) :
    sumOver f xs < sumOver g xs := by
  induction xs with
  | nil => exact absurd hx List.not_mem_nil
  | cons y xs ih =>
    have here := le y List.mem_cons_self
    have rest := fun z hz => le z (List.mem_cons_of_mem y hz)
    rw [sumOver_cons, sumOver_cons]
    rcases List.mem_cons.mp hx with rfl | hx
    · exact Nat.add_lt_add_of_lt_of_le lt (sumOver_le rest)
    · exact Nat.add_lt_add_of_le_of_lt here (ih rest hx)

theorem productOver_le (le : ∀ x ∈ xs, f x ≤ g x) : productOver f xs ≤ productOver g xs := by
  induction xs with
  | nil => exact Nat.le_refl _
  | cons x xs ih =>
    rw [productOver_cons, productOver_cons]
    exact Nat.mul_le_mul (le x List.mem_cons_self)
      (ih fun y hy => le y (List.mem_cons_of_mem _ hy))

theorem countP_lt {a b : α → Bool} (imp : ∀ x ∈ xs, a x = true → b x = true) {x : α}
    (hx : x ∈ xs) (fails : a x = false) (passes : b x = true) : xs.countP a < xs.countP b := by
  induction xs with
  | nil => exact absurd hx List.not_mem_nil
  | cons y xs ih =>
    have rest := fun z hz => imp z (List.mem_cons_of_mem y hz)
    rcases List.mem_cons.mp hx with rfl | hx
    · rw [List.countP_cons_of_neg (by simp [fails]), List.countP_cons_of_pos passes]
      exact Nat.lt_succ_of_le (List.countP_mono_left rest)
    · by_cases here : a y = true
      · rw [List.countP_cons_of_pos here, List.countP_cons_of_pos (imp y List.mem_cons_self here)]
        exact Nat.succ_lt_succ (ih rest hx)
      · rw [List.countP_cons_of_neg here]
        exact Nat.lt_of_lt_of_le (ih rest hx) (List.sublist_cons_self y xs).countP_le

end Counting

namespace Dataset

variable {d : Dataset} {p g : Path}

def boundaries (d : Dataset) (c : Nat) : List Score := (d.comparison c).boundaries.toList

theorem mem_boundaries_iff (c : Nat) (t : Score) : t ∈ d.boundaries c ↔ d.Natural c t :=
  Array.mem_toList_iff

def grid (d : Dataset) : (columns : List Nat) → List Path
  | [] => [[]]
  | c::columns =>
    (d.grid columns).flatMap fun p => p :: (d.boundaries c).map fun t => (c, t)::p

theorem length_grid (columns : List Nat) :
    (d.grid columns).length = productOver (fun c => (d.boundaries c).length + 1) columns := by
  induction columns with
  | nil => rfl
  | cons c columns ih => simp [grid, List.length_flatMap, ih, Nat.mul_comm]

theorem mem_grid_range' {first count : Nat} (inside : d.width ≤ first + count)
    (hp : p.Proper d.Natural first) : p ∈ d.grid (List.range' first count) := by
  induction count generalizing first p with
  | zero =>
    cases p with
    | nil => exact List.mem_singleton_self _
    | cons x p =>
      have hc := d.natural_within _ _ hp.2.1
      have order := hp.1
      omega
  | succ n ih =>
    rw [List.range'_succ, grid, List.mem_flatMap]
    have skip : p.Proper d.Natural (first+1) →
        ∃ g ∈ d.grid (List.range' (first+1) n),
          p ∈ g :: (d.boundaries first).map fun t => (first, t)::g :=
      fun hp => ⟨p, ih (by omega) hp, List.mem_cons_self⟩
    cases p with
    | nil => exact skip trivial
    | cons x p =>
      obtain ⟨c, t⟩ := x
      by_cases here : c = first
      · subst here
        refine ⟨p, ih (by omega) hp.2.2, List.mem_cons_of_mem _ (List.mem_map.mpr ⟨t, ?_, rfl⟩)⟩
        exact (mem_boundaries_iff c t).mpr hp.2.1
      · exact skip ⟨by have := hp.1; omega, hp.2⟩

theorem mem_grid (hp : p.Proper d.Natural 0) : p ∈ d.grid (List.range d.width) := by
  rw [List.range_eq_range']
  exact mem_grid_range' (by omega) hp

def ascent (d : Dataset) (p : Path) : Nat :=
  sumOver (fun c => (d.boundaries c).countP fun t => t.height ≤ p.demand c) (List.range d.width)

theorem ascent_le (p : Path) :
    d.ascent p ≤ sumOver (fun c => (d.boundaries c).length) (List.range d.width) :=
  sumOver_le fun _ _ => List.countP_le_length

/-- Another premise that is more general meets fewer thresholds. -/
theorem Sound.ascent_lt (hd : d.Sound) (hg : g.Proper d.Natural 0) (hp : p.Proper d.Natural 0)
    (general : g.Generalizes p) (other : g ≠ p) : d.ascent g < d.ascent p := by
  have differ : ∃ c, g.demand c < p.demand c := by
    refine Classical.byContradiction fun none => other ?_
    refine general.antisymm hd.natural_positive hg hp fun c => ?_
    exact Int.not_lt.mp fun less => none ⟨c, less⟩
  obtain ⟨c, less⟩ := differ
  have low := hg.demand_nonneg hd.natural_positive c
  have natural : d.Natural c (p.score c) := hp.allowed _ (Path.mem_of_score_ne_zero c (by omega))
  have met : ∀ c, ∀ t ∈ d.boundaries c, decide (t.height ≤ g.demand c) = true →
      decide (t.height ≤ p.demand c) = true := fun c t _ meets =>
    decide_eq_true (Int.le_trans (of_decide_eq_true meets) (general c))
  refine sumOver_lt (fun c _ => List.countP_mono_left (met c))
    (List.mem_range.mpr (d.natural_within c _ natural)) ?_
  exact countP_lt (met c) ((mem_boundaries_iff c _).mpr natural)
    (decide_eq_false (Int.not_le.mpr less)) (decide_eq_true (Int.le_refl _))

end Dataset

end MatchingDependencies
