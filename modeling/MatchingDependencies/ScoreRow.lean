import MatchingDependencies.Bisection
import MatchingDependencies.Score

/-!
# Rows of scores

A row holds scores by number, and zero where nothing was entered. Large columns
have few similar values, so a row that is mostly zero keeps only what was
entered. The main statement says that either way the scores are the entries.
-/

set_option autoImplicit false

namespace MatchingDependencies

inductive ScoreRow where
  | dense (scores : Array Score)
  /-- The numbers are in increasing order. -/
  | sparse (entries : Array (Nat × Score))

namespace ScoreRow

instance : Inhabited ScoreRow := ⟨.dense #[]⟩

def scoreAt (i : Nat) : Option (Nat × Score) → Score
  | some (j, s) => if j = i then s else 0
  | none => 0

def score : ScoreRow → Nat → Score
  | dense scores, i => scores.getD i 0
  | sparse entries, i => scoreAt i entries[bisect (fun e => decide (i ≤ e.1)) entries]?

def entries : ScoreRow → List (Nat × Score)
  | dense scores => (scores.toList.zipIdx.map fun (s, i) => (i, s)).filter fun e => !e.2.isZero
  | sparse entries => entries.toList

def setEntry (scores : Array Score) (entry : Nat × Score) : Array Score :=
  scores.setIfInBounds entry.1 entry.2

def ofEntries (count : Nat) (entries : List (Nat × Score)) : ScoreRow :=
  if count < 8 * entries.length then dense (entries.foldl setEntry (Array.replicate count 0))
  else sparse entries.toArray

theorem getD_foldl_setEntry (entries : List (Nat × Score)) (scores : Array Score) (i : Nat)
    (ascend : entries.Pairwise fun a b => a.1 < b.1) (below : ∀ e ∈ entries, e.1 < scores.size) :
    (entries.foldl setEntry scores).getD i 0 = (entries.lookup i).getD (scores.getD i 0) := by
  induction entries generalizing scores with
  | nil => rfl
  | cons e entries ih =>
    obtain ⟨j, s⟩ := e
    have ⟨first, ascend⟩ := List.pairwise_cons.mp ascend
    have inside := below (j, s) List.mem_cons_self
    rw [List.foldl_cons, ih _ ascend fun e he => by
      simpa [setEntry] using below e (List.mem_cons_of_mem _ he)]
    by_cases h : i = j
    · subst h
      have absent : entries.lookup i = none := by
        rw [List.lookup_eq_none_iff]
        exact fun e he => by simpa using Nat.ne_of_lt (first e he)
      simp [absent, setEntry, inside]
    · have other : (i == j) = false := by simpa using h
      simp [List.lookup_cons, other, setEntry, Ne.symm h]

theorem scoreAt_find? (entries : List (Nat × Score)) (i : Nat)
    (ascend : entries.Pairwise fun a b => a.1 < b.1) :
    scoreAt i (entries.find? fun e => decide (i ≤ e.1)) = (entries.lookup i).getD 0 := by
  induction entries with
  | nil => rfl
  | cons e entries ih =>
    obtain ⟨j, s⟩ := e
    have ⟨first, ascend⟩ := List.pairwise_cons.mp ascend
    by_cases low : i ≤ j
    · by_cases h : i = j
      · simp [scoreAt, h]
      · have absent : entries.lookup i = none := by
          rw [List.lookup_eq_none_iff]
          exact fun e he => by have := first e he; simp; omega
        have other : (i == j) = false := by simpa using h
        simp [scoreAt, List.lookup_cons, low, other, absent, Ne.symm h]
    · have other : (i == j) = false := by simp; omega
      simpa [List.lookup_cons, low, other] using ih ascend

theorem score_ofEntries (count : Nat) (entries : List (Nat × Score)) (i : Nat)
    (ascend : entries.Pairwise fun a b => a.1 < b.1) (below : ∀ e ∈ entries, e.1 < count) :
    (ofEntries count entries).score i = (entries.lookup i).getD 0 := by
  rw [ofEntries]
  split
  · rw [score, getD_foldl_setEntry entries _ i ascend (by simpa using below)]
    simp only [Array.getD_eq_getD_getElem?, Array.getElem?_replicate]
    split <;> rfl
  · have stays : StaysTrue (fun e => decide (i ≤ e.1)) entries.toArray := by
      intro j k le hk pass
      rw [List.size_toArray] at hk
      rcases Nat.lt_or_eq_of_le le with lt | rfl
      · have := List.pairwise_iff_getElem.mp ascend j k (by omega) hk lt
        simp at pass ⊢
        omega
      · exact pass
    rw [score, getElem?_bisect stays, List.find?_toArray, scoreAt_find? entries i ascend]

end ScoreRow

end MatchingDependencies
