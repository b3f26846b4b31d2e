import MatchingDependencies.Stopping

/-!
# What a fold that stops has seen

A fold that stops has taken some first members into account, and these are all
unless it is final. What a final state knows, it knows about all members if
nothing more could be learned.
-/

set_option autoImplicit false

namespace MatchingDependencies

variable {σ α β : Type} {isFinal : σ → Bool} {step : σ → α → σ}

theorem foldUntil_beginning (isFinal : σ → Bool) (step : σ → α → σ) (as : List α) (s : σ) :
    ∃ front back, as = front ++ back ∧ foldUntil isFinal step as s = front.foldl step s ∧
      (back = [] ∨ isFinal (front.foldl step s) = true) := by
  induction as generalizing s with
  | nil => exact ⟨[], [], rfl, rfl, .inl rfl⟩
  | cons a as ih =>
    rw [foldUntil]
    by_cases final : isFinal s = true
    · exact ⟨[], a::as, rfl, by rw [if_pos final]; rfl, .inr final⟩
    · obtain ⟨front, back, eq, folded, last⟩ := ih (step s a)
      exact ⟨a::front, back, by rw [eq]; rfl, by rw [if_neg final, folded]; rfl, last⟩

theorem foldUntil_eq_foldl (goesOn : ∀ s, isFinal s = false) (as : List α) (s : σ) :
    foldUntil isFinal step as s = as.foldl step s := by
  obtain ⟨front, back, eq, folded, ended⟩ := foldUntil_beginning isFinal step as s
  obtain rfl | final := ended
  · rw [folded, eq, List.append_nil]
  · rw [goesOn] at final
    cases final

theorem foldUntil_preserves {P : σ → Prop} {as : List α} {s : σ}
    (kept : ∀ s, ∀ a ∈ as, P s → P (step s a)) (h : P s) : P (foldUntil isFinal step as s) := by
  induction as generalizing s with
  | nil => exact h
  | cons a as ih =>
    rw [foldUntil]
    split
    · exact h
    · exact ih (fun s b hb => kept s b (List.mem_cons_of_mem _ hb))
        (kept s a List.mem_cons_self h)

/-- A state that knows the values seen so far knows all of them in the end, if
a final state knows any further ones as well. -/
theorem foldUntil_knows {K : σ → (β → Prop) → Prop} {adds : α → β → Prop} {as : List α} {s : σ}
    {seen : β → Prop}
    (learns : ∀ s, ∀ a ∈ as, ∀ seen, K s seen → K (step s a) fun b => seen b ∨ adds a b)
    (settled : ∀ s seen (more : β → Prop), isFinal s = true → K s seen →
      K s fun b => seen b ∨ more b)
    (h : K s seen) : K (foldUntil isFinal step as s) fun b => seen b ∨ ∃ a ∈ as, adds a b := by
  induction as generalizing s seen with
  | nil => simpa [foldUntil] using h
  | cons a as ih =>
    rw [foldUntil]
    split
    · next final => exact settled s seen _ final h
    · have rest := ih (fun s b hb => learns s b (List.mem_cons_of_mem _ hb))
        (learns s a List.mem_cons_self seen h)
      have all : (fun b => (seen b ∨ adds a b) ∨ ∃ a ∈ as, adds a b) =
          fun b => seen b ∨ ∃ a' ∈ a::as, adds a' b := by
        funext b
        simp [or_assoc]
      rwa [all] at rest

end MatchingDependencies
