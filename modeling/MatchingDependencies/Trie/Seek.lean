import MatchingDependencies.Trie

/-!
# Looking through a trie

Looks among the nodes that a vector covers for a value that passes a test, and
counts the nodes that are looked at. The first such value ends the look. The
main statements say that the nodes are looked at in the order of the lists
`covered` and `insertionOrder`.
-/

set_option autoImplicit false

namespace MatchingDependencies

variable {α : Type}

/-- Whether a value was found, and how many were looked at by then. -/
structure Sought where
  found : Bool
  count : Nat

@[inline] def Sought.orElse (s : Sought) (next : Nat → Sought) : Sought :=
  if s.found then s else next s.count

@[inline] def look (test : α → Bool) (a : α) (count : Nat) : Sought := ⟨test a, count+1⟩

def lookThrough (test : α → Bool) : List α → Nat → Sought
  | [], count => ⟨false, count⟩
  | a::rest, count => (look test a count).orElse fun n => lookThrough test rest n

theorem Sought.orElse_assoc (s : Sought) (f g : Nat → Sought) :
    (s.orElse f).orElse g = s.orElse fun n => (f n).orElse g := by
  cases h : s.found <;> simp [Sought.orElse, h]

theorem Sought.orElse_end (s : Sought) : (s.orElse fun n => ⟨false, n⟩) = s := by
  obtain ⟨found, count⟩ := s
  cases found <;> rfl

theorem lookThrough_append (test : α → Bool) (as bs : List α) :
    lookThrough test (as ++ bs) =
      fun n => (lookThrough test as n).orElse (lookThrough test bs) := by
  funext n
  induction as generalizing n with
  | nil => rfl
  | cons a as ih =>
    rw [List.cons_append, lookThrough, lookThrough, Sought.orElse_assoc]
    simp only [ih]

theorem lookThrough_found (test : α → Bool) (as : List α) (n : Nat) :
    (lookThrough test as n).found = as.any test := by
  induction as generalizing n with
  | nil => rfl
  | cons a as ih => cases h : test a <;> simp [lookThrough, look, Sought.orElse, h, ih]

namespace Branches

@[specialize] def seek (meets : Nat → Score → Bool) (test : α → Bool) : Branches α → Nat → Sought
  | none, count => ⟨false, count⟩
  | edge c t a below after, count =>
    if meets c t then
      ((look test a count).orElse fun n => seek meets test below n).orElse fun n =>
        seek meets test after n
    else seek meets test after count

/-- Like `seek`, but following only those edges of the first node that a test on
column and threshold selects. -/
@[specialize] def seekVia (via meets : Nat → Score → Bool) (test : α → Bool) :
    Branches α → Nat → Sought
  | none, count => ⟨false, count⟩
  | edge c t a below after, count =>
    if via c t && meets c t then
      ((look test a count).orElse (below.seek meets test)).orElse fun n =>
        seekVia via meets test after n
    else seekVia via meets test after count

@[specialize] def seekInsertion (meets : Nat → Score → Bool) (test : α → Bool) :
    Path → α → Branches α → Nat → Sought
  | [], a, _, count => look test a count
  | (c, t)::path, a, b, count =>
    (((look test a count).orElse (b.seekVia (fun column _ => c < column) meets test)).orElse
      (b.seekVia (fun column s => column = c && !s.same t) meets test)).orElse fun n =>
        match b.child? c t with
        | Option.none => ⟨false, n⟩
        | some (a, below) => seekInsertion meets test path a below n

theorem seek_eq_lookThrough (meets : Nat → Score → Bool) (test : α → Bool) (b : Branches α) :
    b.seek meets test = lookThrough test (b.covered meets) := by
  funext n
  induction b generalizing n with
  | none => rfl
  | edge c t a below after ihBelow ihAfter =>
    by_cases h : meets c t = true
    · simp only [seek, covered, h, if_true, List.cons_append, lookThrough, lookThrough_append,
        Sought.orElse_assoc, ihBelow, ihAfter]
    · simpa [seek, covered, h] using ihAfter n

theorem seekVia_eq_lookThrough (via meets : Nat → Score → Bool) (test : α → Bool)
    (b : Branches α) : b.seekVia via meets test = lookThrough test (b.coveredVia via meets) := by
  funext n
  induction b generalizing n with
  | none => rfl
  | edge c t a below after _ ihAfter =>
    by_cases h : (via c t && meets c t) = true
    · simp only [seekVia, coveredVia, h, if_true, List.cons_append, lookThrough,
        lookThrough_append, Sought.orElse_assoc, seek_eq_lookThrough, ihAfter]
    · rw [seekVia, coveredVia, if_neg h, if_neg h]
      exact ihAfter n

theorem seekInsertion_eq_lookThrough (meets : Nat → Score → Bool) (test : α → Bool) (path : Path)
    (a : α) (b : Branches α) (n : Nat) :
    b.seekInsertion meets test path a n = lookThrough test (b.insertionOrder meets path a) n := by
  induction path generalizing a b n with
  | nil => simp only [seekInsertion, insertionOrder, lookThrough, Sought.orElse_end]
  | cons constraint path ih =>
    obtain ⟨c, t⟩ := constraint
    simp only [seekInsertion, insertionOrder, lookThrough, lookThrough_append,
      seekVia_eq_lookThrough, Sought.orElse_assoc]
    cases b.child? c t with
    | none => rfl
    | some found => simp only [ih]

end Branches

end MatchingDependencies
