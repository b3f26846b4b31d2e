import Std.Data.TreeMap
import Std.Data.TreeSet

/-!
# Ascending lists

`ascending` lists the members of a list in increasing order, each of them once.
`groupBy` lists the keys of some members in this way, each with the members
that have the key; if the keys are small numbers, `byNumber` puts the members
into an array. `mergeAll` makes one ascending list of many.
-/

set_option autoImplicit false

namespace MatchingDependencies

variable {α κ : Type}

def ascending [Ord α] (members : List α) : List α := (Std.TreeSet.ofList members).toList

def gather [Ord κ] (key : α → κ) (a : α) (groups : Std.TreeMap κ (List α)) :
    Std.TreeMap κ (List α) :=
  groups.alter (key a) fun group => some (a :: group.getD [])

/-- The members of each group stay in their order. -/
def groupBy [Ord κ] (key : α → κ) (members : List α) : List (κ × List α) :=
  (members.foldr (gather key) ∅).toList

def byNumber (count : Nat) (entries : List (Nat × α)) : Array (List α) :=
  entries.foldr (fun (number, a) lists => lists.modify number (a :: ·)) (Array.replicate count [])

/-! ## Merging -/

/-- Puts an ascending list in front of others. If all of it comes before the
first of them, the two become one. -/
def joinFront (le : α → α → Bool) (members : List α) (lists : List (List α)) : List (List α) :=
  match members.getLast?, lists with
  | none, lists => lists
  | some last, (a::as)::lists =>
    if le last a then (members ++ a::as) :: lists else members :: (a::as) :: lists
  | some _, lists => members :: lists

def mergePairs (le : α → α → Bool) : List (List α) → List (List α)
  | a::b::lists => a.merge b le :: mergePairs le lists
  | lists => lists

theorem length_mergePairs (le : α → α → Bool) (lists : List (List α)) :
    (mergePairs le lists).length ≤ lists.length := by
  fun_induction mergePairs le lists with
  | case1 a b lists ih => simp; omega
  | case2 lists => exact Nat.le_refl _

def mergeRounds (le : α → α → Bool) : List (List α) → List α
  | [] => []
  | [members] => members
  | a::b::lists => mergeRounds le (a.merge b le :: mergePairs le lists)
termination_by lists => lists.length
decreasing_by
  have := length_mergePairs le lists
  simp; omega

/-- One ascending list of the members of ascending lists. Lists that follow one
upon the other need no merging. -/
def mergeAll (le : α → α → Bool) (lists : List (List α)) : List α :=
  mergeRounds le (lists.foldr (joinFront le) [])

end MatchingDependencies
