/-!
# Bisection

In an ascending array a test for being large enough fails in front of some
place and passes from there on. The place is found by halving. The main
statement says that this finds the first member that passes the test.
-/

set_option autoImplicit false

namespace MatchingDependencies

variable {α : Type}

def bisectBetween (test : α → Bool) (a : Array α) (low high : Nat) (inside : high ≤ a.size) :
    Nat :=
  if _ : low < high then
    if test a[(low+high)/2] then bisectBetween test a low ((low+high)/2) (by omega)
    else bisectBetween test a ((low+high)/2+1) high inside
  else low
termination_by high - low

/-- The first place from which on the test passes. -/
def bisect (test : α → Bool) (a : Array α) : Nat :=
  bisectBetween test a 0 a.size (Nat.le_refl _)

def StaysTrue (test : α → Bool) (a : Array α) : Prop :=
  ∀ i j (_ : i ≤ j) (_ : j < a.size), test a[i] = true → test a[j] = true

/-- The test fails in front of a place and passes from there on. -/
structure Parts (test : α → Bool) (a : Array α) (place : Nat) : Prop where
  fails : ∀ i (_ : i < a.size), i < place → test a[i] = false
  passes : ∀ i (_ : i < a.size), place ≤ i → test a[i] = true

theorem parts_bisectBetween {test : α → Bool} {a : Array α} (stays : StaysTrue test a)
    (low high : Nat) (inside : high ≤ a.size) (ordered : low ≤ high)
    (fails : ∀ i (_ : i < a.size), i < low → test a[i] = false)
    (passes : ∀ i (_ : i < a.size), high ≤ i → test a[i] = true) :
    Parts test a (bisectBetween test a low high inside) := by
  fun_induction bisectBetween test a low high inside with
  | case1 low high inside less pass ih =>
    exact ih (by omega) fails fun i hi le => stays _ i le hi pass
  | case2 low high inside less fail ih =>
    refine ih (by omega) (fun i hi lt => ?_) passes
    rw [Bool.eq_false_iff]
    exact fun pass => fail (stays i _ (by omega) (by omega) pass)
  | case3 low high inside done =>
    exact ⟨fails, fun i hi le => passes i hi (by omega)⟩

theorem parts_bisect {test : α → Bool} {a : Array α} (stays : StaysTrue test a) :
    Parts test a (bisect test a) :=
  parts_bisectBetween stays 0 a.size _ (Nat.zero_le _) (fun _ _ lt => absurd lt (Nat.not_lt_zero _))
    fun _ hi le => absurd hi (Nat.not_lt_of_le le)

theorem getElem?_bisect {test : α → Bool} {a : Array α} (stays : StaysTrue test a) :
    a[bisect test a]? = a.find? test := by
  have parts := parts_bisect stays
  by_cases h : bisect test a < a.size
  · rw [Array.getElem?_eq_getElem h, eq_comm, Array.find?_eq_some_iff_getElem]
    exact ⟨parts.passes _ h (Nat.le_refl _), _, h, rfl, fun j lt => by
      rw [parts.fails j (by omega) lt]; rfl⟩
  · rw [Array.getElem?_eq_none (by omega), eq_comm, Array.find?_eq_none]
    intro x hx
    obtain ⟨i, hi, rfl⟩ := Array.getElem_of_mem hx
    simp [parts.fails i hi (by omega)]

end MatchingDependencies
