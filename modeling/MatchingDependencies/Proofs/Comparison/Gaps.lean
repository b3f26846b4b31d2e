import MatchingDependencies.Proofs.Comparison.Columns

/-!
# Between the boundaries

The boundaries of a comparison are the positive similarities that occur, in
increasing order, whatever the measure answered. Two lookups bisect them: one
finds the greatest boundary below a bound, the other one the least boundary
above it.
-/

set_option autoImplicit false

namespace MatchingDependencies

theorem bisectBetween_le {α : Type} (test : α → Bool) (a : Array α) (low high : Nat)
    (inside : high ≤ a.size) (ordered : low ≤ high) :
    bisectBetween test a low high inside ≤ high := by
  fun_induction bisectBetween test a low high inside with
  | case1 low high inside less pass ih => exact Nat.le_trans (ih (by omega)) (by omega)
  | case2 low high inside less fail ih => exact ih (by omega)
  | case3 low high inside done => exact ordered

theorem bisect_le_size {α : Type} (test : α → Bool) (a : Array α) : bisect test a ≤ a.size :=
  bisectBetween_le test a 0 a.size _ (Nat.zero_le _)

namespace Comparison.Sound

variable {c : Comparison} {lefts : Nat} {clusters : Array (List Nat)}
  (h : c.Sound lefts clusters)

include h

theorem positive {s : Score} (hs : s ∈ c.boundaries) : s.IsPositive :=
  ((h.mem_boundaries_iff s).mp hs).1

theorem previousBoundary?_spec {b : Score} (number : b.height < Score.topHeight) :
    match c.previousBoundary? b with
    | none => ∀ s ∈ c.boundaries, b.height ≤ s.height
    | some p => p ∈ c.boundaries ∧ p.height < b.height ∧
        ∀ s ∈ c.boundaries, s.height < b.height → s.height ≤ p.height := by
  have below : ∀ s : Score, (!decide (s < b)) = true ↔ b.height ≤ s.height := fun s => by
    rw [← decide_not, decide_eq_true_iff, Score.lt_iff]
    omega
  have increasing : ∀ i j (_ : i < j) (hj : j < c.boundaries.size),
      (c.boundaries[i]).height < (c.boundaries[j]).height := fun i j less hj => by
    have := List.pairwise_iff_getElem.mp h.sorted i j (by simp; omega) (by simpa using hj) less
    simpa only [Array.getElem_toList] using this
  have stays : StaysTrue (fun s => !decide (s < b)) c.boundaries := by
    intro i j le hj pass
    rw [below] at pass ⊢
    rcases Nat.lt_or_eq_of_le le with less | rfl
    · exact Int.le_trans pass (Int.le_of_lt (increasing i j less hj))
    · exact pass
  have parts := parts_bisect stays
  have inside := bisect_le_size (fun s => !decide (s < b)) c.boundaries
  rw [previousBoundary?]
  generalize bisect (fun s => !decide (s < b)) c.boundaries = place at parts inside
  cases place with
  | zero =>
    intro s hs
    obtain ⟨i, hi, rfl⟩ := Array.getElem_of_mem hs
    exact (below _).mp (parts.passes i hi (Nat.zero_le i))
  | succ place =>
    have hp : place < c.boundaries.size := inside
    simp only [Array.getElem?_eq_getElem hp]
    -- The boundary at `place` is the last one for which the test fails.
    have fails : ∀ i (hi : i < c.boundaries.size), i ≤ place →
        (c.boundaries[i]).height < b.height := fun i hi le => by
      have := parts.fails i hi (by omega)
      rw [← Bool.not_eq_true, below] at this
      omega
    refine ⟨Array.getElem_mem hp, fails place hp (Nat.le_refl _), fun s hs less => ?_⟩
    obtain ⟨i, hi, rfl⟩ := Array.getElem_of_mem hs
    have le : i ≤ place := by
      by_contra beyond
      have := (below _).mp (parts.passes i hi (by omega))
      omega
    rcases Nat.lt_or_eq_of_le le with before | rfl
    · exact Int.le_of_lt (increasing i place before hp)
    · exact Int.le_refl _

theorem nextBoundary?_spec {b : Score} (number : b.height < Score.topHeight) :
    match c.nextBoundary? b with
    | none => ∀ s ∈ c.boundaries, s.height ≤ b.height
    | some t => t ∈ c.boundaries ∧ b.height < t.height ∧
        ∀ s ∈ c.boundaries, b.height < s.height → t.height ≤ s.height := by
  cases found : c.nextBoundary? b with
  | none =>
    intro s hs
    by_contra above
    obtain ⟨t, next⟩ := h.exists_nextBoundary number hs (Int.not_le.mp above)
    rw [found] at next
    nomatch next
  | some t => exact (h.nextBoundary?_eq_some_iff number t).mp found

end Comparison.Sound

end MatchingDependencies
