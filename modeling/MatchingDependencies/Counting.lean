/-!
# Sums and products

Sums and products of numbers that belong to the members of a list.
-/

set_option autoImplicit false

namespace MatchingDependencies

variable {α : Type}

def sumOver (f : α → Nat) (xs : List α) : Nat := xs.foldl (fun total x => total + f x) 0

def productOver (f : α → Nat) (xs : List α) : Nat := xs.foldl (fun total x => total * f x) 1

theorem foldl_add (f : α → Nat) (xs : List α) (start : Nat) :
    xs.foldl (fun total x => total + f x) start = start + sumOver f xs := by
  rw [sumOver]
  induction xs generalizing start with
  | nil => rfl
  | cons x xs ih => rw [List.foldl_cons, List.foldl_cons, ih, ih (0 + f x)]; omega

@[simp] theorem sumOver_nil (f : α → Nat) : sumOver f [] = 0 := rfl

@[simp] theorem sumOver_cons (f : α → Nat) (x : α) (xs : List α) :
    sumOver f (x::xs) = f x + sumOver f xs := by
  rw [sumOver, List.foldl_cons, foldl_add, Nat.zero_add]

theorem sumOver_append (f : α → Nat) (xs ys : List α) :
    sumOver f (xs ++ ys) = sumOver f xs + sumOver f ys := by
  induction xs with
  | nil => rw [List.nil_append, sumOver_nil, Nat.zero_add]
  | cons x xs ih => rw [List.cons_append, sumOver_cons, sumOver_cons, ih, Nat.add_assoc]

theorem length_flatMap_eq_sumOver {β : Type} (f : α → List β) (xs : List α) :
    (xs.flatMap f).length = sumOver (fun x => (f x).length) xs := by
  induction xs with
  | nil => rfl
  | cons x xs ih => rw [List.flatMap_cons, List.length_append, sumOver_cons, ih]

theorem foldl_mul (f : α → Nat) (xs : List α) (start : Nat) :
    xs.foldl (fun total x => total * f x) start = start * productOver f xs := by
  rw [productOver]
  induction xs generalizing start with
  | nil => exact (Nat.mul_one start).symm
  | cons x xs ih =>
    rw [List.foldl_cons, List.foldl_cons, ih, ih (1 * f x), Nat.one_mul, Nat.mul_assoc]

@[simp] theorem productOver_cons (f : α → Nat) (x : α) (xs : List α) :
    productOver f (x::xs) = f x * productOver f xs := by
  rw [productOver, List.foldl_cons, foldl_mul, Nat.one_mul]

end MatchingDependencies
