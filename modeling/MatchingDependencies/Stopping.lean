/-!
# Folds that stop

`foldUntil` takes the members of a list into account one after another, as
long as the state is not final. The main statements say that a list need not
be there as a whole: lists within a list, or what is found for the members of
a list, can be made when their turn comes.
-/

set_option autoImplicit false

namespace MatchingDependencies

variable {σ α β : Type}

@[specialize]
def foldUntil (isFinal : σ → Bool) (step : σ → α → σ) : List α → σ → σ
  | [], s => s
  | a::members, s => if isFinal s then s else foldUntil isFinal step members (step s a)

theorem foldUntil_of_isFinal (isFinal : σ → Bool) (step : σ → α → σ) (as : List α) (s : σ)
    (h : isFinal s = true) : foldUntil isFinal step as s = s := by
  cases as with
  | nil => rfl
  | cons a as => rw [foldUntil, if_pos h]

theorem foldUntil_append (isFinal : σ → Bool) (step : σ → α → σ) (as bs : List α) (s : σ) :
    foldUntil isFinal step (as ++ bs) s =
      foldUntil isFinal step bs (foldUntil isFinal step as s) := by
  induction as generalizing s with
  | nil => rfl
  | cons a as ih =>
    rw [List.cons_append, foldUntil, foldUntil]
    split
    · next h => exact (foldUntil_of_isFinal isFinal step bs s h).symm
    · exact ih (step s a)

theorem foldUntil_flatMap (isFinal : σ → Bool) (step : σ → β → σ) (f : α → List β) (as : List α)
    (s : σ) :
    foldUntil isFinal step (as.flatMap f) s =
      foldUntil isFinal (fun s a => foldUntil isFinal step (f a) s) as s := by
  induction as generalizing s with
  | nil => rfl
  | cons a as ih =>
    rw [List.flatMap_cons, foldUntil_append, foldUntil, ih]
    split
    · next h =>
      rw [foldUntil_of_isFinal isFinal step (f a) s h, foldUntil_of_isFinal isFinal _ as s h]
    · rfl

/-- Takes what is found for a member into account, if anything is. -/
@[inline]
def stepFound (found? : α → Option β) (step : σ → β → σ) (s : σ) (a : α) : σ :=
  match found? a with
  | none => s
  | some b => step s b

theorem foldUntil_filterMap (isFinal : σ → Bool) (step : σ → β → σ) (found? : α → Option β)
    (as : List α) (s : σ) :
    foldUntil isFinal step (as.filterMap found?) s =
      foldUntil isFinal (stepFound found? step) as s := by
  induction as generalizing s with
  | nil => rfl
  | cons a as ih =>
    rw [List.filterMap_cons, foldUntil, stepFound]
    cases found? a with
    | none =>
      simp only [ih]
      split
      · next h => exact foldUntil_of_isFinal isFinal _ as s h
      · rfl
    | some b => simp only [foldUntil, ih]

end MatchingDependencies
