import MatchingDependencies.Comparison
import MatchingDependencies.Proofs.Ascending
import MatchingDependencies.Proofs.Score.Order

/-!
# The sweep that makes an index

The sweep goes from the most similar value down and gathers the records of the
values. Where a similarity ends, the values so far are those that reach it, so
the index has one entry for every similarity that occurs, with the records of
these values.
-/

set_option autoImplicit false

namespace MatchingDependencies.Comparison.Row

variable {clusters : Array (List Nat)} {entries before rest : Entries} {s t : Score}

def Falling (entries : Entries) : Prop := entries.Pairwise fun a b => b.2.height ≤ a.2.height

theorem comesFirst_trans (a b c : Nat × Score) (hab : comesFirst a b = true)
    (hbc : comesFirst b c = true) : comesFirst a c = true := by
  simp only [comesFirst, Bool.or_eq_true, Bool.and_eq_true, decide_eq_true_iff,
    UInt64.lt_iff_toNat_lt, ← UInt64.toNat_inj] at *
  omega

theorem comesFirst_total (a b : Nat × Score) : (comesFirst a b || comesFirst b a) = true := by
  simp only [comesFirst, Bool.or_eq_true, Bool.and_eq_true, decide_eq_true_iff,
    UInt64.lt_iff_toNat_lt, ← UInt64.toNat_inj] at *
  omega

theorem falling_mergeSort (entries : Entries) : Falling (entries.mergeSort comesFirst) := by
  refine (List.pairwise_mergeSort comesFirst_trans comesFirst_total entries).imp ?_
  intro a b first
  rw [comesFirst, Bool.or_eq_true, Bool.and_eq_true, decide_eq_true_iff, decide_eq_true_iff,
    Score.rank_lt_iff, Score.rank_eq_iff] at first
  omega

def reaching (clusters : Array (List Nat)) (entries : Entries) (t : Score) : List (List Nat) :=
  (entries.filter fun e => t.height ≤ e.2.height).map fun e => clusters.getD e.1 []

def IsSnapshot (clusters : Array (List Nat)) (entries : Entries)
    (x : Score × Thunk (List Nat)) : Prop :=
  x.2.get = mergeAll Nat.ble (reaching clusters entries x.1)

/-- What the sweep puts in front of the index while it goes through the rest. -/
structure Swept (clusters : Array (List Nat)) (before rest : Entries)
    (front : List (Score × Thunk (List Nat))) : Prop where
  snapshots : ∀ x ∈ front, IsSnapshot clusters (before ++ rest) x
  rising : front.Pairwise fun x y => x.1.height < y.1.height
  occurs : ∀ x ∈ front, ∃ e ∈ rest, e.2 = x.1
  complete : ∀ e ∈ rest, ∃ x ∈ front, x.1.height = e.2.height

theorem height_lt_of_last {right : Nat} (falling : Falling ((right, s)::rest))
    (positive : s.IsPositive) (last : ¬rest.head?.any (·.2.same s) = true) :
    ∀ e ∈ rest, e.2.height < s.height := by
  cases rest with
  | nil => exact nofun
  | cons next rest =>
    obtain ⟨le, falling⟩ := List.pairwise_cons.mp falling
    have differ : next.2.height ≠ s.height := by
      intro same
      exact last ((Score.same_iff _ _).mpr ⟨same, positive.2⟩)
    have less : next.2.height < s.height := by
      have := le next List.mem_cons_self
      dsimp only at this
      omega
    intro e he
    rcases List.mem_cons.mp he with rfl | he
    · exact less
    · exact Int.lt_of_le_of_lt ((List.pairwise_cons.mp falling).1 e he) less

theorem reaching_append (reached : ∀ e ∈ before, s.height ≤ e.2.height)
    (lower : ∀ e ∈ rest, e.2.height < s.height) :
    reaching clusters (before ++ rest) s = before.map fun e => clusters.getD e.1 [] := by
  have all : before.filter (fun e => s.height ≤ e.2.height) = before := by
    rw [List.filter_eq_self]
    exact fun e he => decide_eq_true (reached e he)
  have none : rest.filter (fun e => s.height ≤ e.2.height) = [] := by
    rw [List.filter_eq_nil_iff]
    intro e he
    rw [decide_eq_true_iff, Int.not_le]
    exact lower e he
  rw [reaching, List.filter_append, all, none, List.append_nil]

/-- A similarity ends with an entry of the index behind those of the lower ones. -/
theorem Swept.close {right : Nat} {front : List (Score × Thunk (List Nat))}
    (h : Swept clusters (before ++ [(right, s)]) rest front)
    (reached : ∀ e ∈ before ++ [(right, s)], s.height ≤ e.2.height)
    (lower : ∀ e ∈ rest, e.2.height < s.height) {gathered : List (List Nat)}
    (all : gathered = (before ++ [(right, s)]).map fun e => clusters.getD e.1 []) :
    Swept clusters before ((right, s)::rest)
      (front ++ [(s, Thunk.mk fun _ => mergeAll Nat.ble gathered)]) := by
  have whole : before ++ (right, s)::rest = (before ++ [(right, s)]) ++ rest := by simp
  constructor
  · intro x hx
    rw [whole]
    rcases List.mem_append.mp hx with hx | hx
    · exact h.snapshots x hx
    · obtain rfl := List.mem_singleton.mp hx
      rw [IsSnapshot, reaching_append reached lower, ← all]
      rfl
  · refine List.pairwise_append.mpr ⟨h.rising, List.pairwise_singleton _ _, fun x hx y hy => ?_⟩
    obtain rfl := List.mem_singleton.mp hy
    obtain ⟨e, he, same⟩ := h.occurs x hx
    exact same ▸ lower e he
  · intro x hx
    rcases List.mem_append.mp hx with hx | hx
    · obtain ⟨e, he, same⟩ := h.occurs x hx
      exact ⟨e, List.mem_cons_of_mem _ he, same⟩
    · obtain rfl := List.mem_singleton.mp hx
      exact ⟨(right, s), List.mem_cons_self, rfl⟩
  · intro e he
    rcases List.mem_cons.mp he with rfl | he
    · exact ⟨_, List.mem_append_right _ List.mem_cons_self, rfl⟩
    · obtain ⟨x, hx, same⟩ := h.complete e he
      exact ⟨x, List.mem_append_left _ hx, same⟩

variable (clusters before) in
theorem swept_sweep (falling : Falling (before ++ rest))
    (positive : ∀ e ∈ before ++ rest, e.2.IsPositive) (index : List (Score × Thunk (List Nat))) :
    ∃ front, sweep clusters rest (before.map fun e => clusters.getD e.1 []).reverse index =
      front ++ index ∧ Swept clusters before rest front := by
  induction rest generalizing before index with
  | nil => exact ⟨[], rfl, nofun, .nil, nofun, nofun⟩
  | cons e rest ih =>
    obtain ⟨right, s⟩ := e
    have whole : before ++ (right, s)::rest = (before ++ [(right, s)]) ++ rest := by simp
    have gathered : clusters.getD right [] ::
        (before.map fun e => clusters.getD e.1 []).reverse =
          ((before ++ [(right, s)]).map fun e => clusters.getD e.1 []).reverse := by simp
    have here : s.IsPositive := positive (right, s) (by simp)
    obtain ⟨-, tail, order⟩ := List.pairwise_append.mp falling
    rw [whole] at falling positive
    rw [sweep, gathered]
    split
    · next tie =>
      -- The next value is as similar, so the sweep goes on to it.
      obtain ⟨front, eq, swept⟩ := ih _ falling positive index
      obtain ⟨next, first, same⟩ := (Option.any_eq_true _ _).mp tie
      refine ⟨front, eq, whole ▸ swept.snapshots, swept.rising, fun x hx => ?_,
        List.forall_mem_cons.mpr ⟨?_, swept.complete⟩⟩
      · obtain ⟨e, he, occurs⟩ := swept.occurs x hx
        exact ⟨e, List.mem_cons_of_mem _ he, occurs⟩
      · obtain ⟨x, hx, equal⟩ := swept.complete next (List.mem_of_head? first)
        exact ⟨x, hx, equal.trans ((Score.same_iff _ _).mp same).1⟩
    · next last =>
      -- The similarity ends here, and what was gathered is all that reaches it.
      have lower := height_lt_of_last tail here last
      have reached : ∀ e ∈ before ++ [(right, s)], s.height ≤ e.2.height := by
        intro e he
        rcases List.mem_append.mp he with he | he
        · exact order e he (right, s) List.mem_cons_self
        · obtain rfl := List.mem_singleton.mp he
          exact Int.le_refl _
      obtain ⟨front, eq, swept⟩ := ih _ falling positive _
      refine ⟨_, eq.trans ?_, swept.close reached lower (List.reverse_reverse _)⟩
      exact (List.append_cons front _ index)

/-- The index has one entry for every similarity that occurs, in increasing order, each
with the records of the values that reach it. -/
structure Indexed (clusters : Array (List Nat)) (entries : Entries)
    (index : List (Score × Thunk (List Nat))) : Prop where
  records : ∀ x ∈ index, ∃ these : Entries, these.Perm entries ∧ IsSnapshot clusters these x
  rising : index.Pairwise fun x y => x.1.height < y.1.height
  occurs : ∀ x ∈ index, ∃ e ∈ entries, e.2 = x.1
  complete : ∀ e ∈ entries, ∃ x ∈ index, x.1.height = e.2.height

theorem indexed_ofEntries (clusters : Array (List Nat)) (positive : ∀ e ∈ entries, e.2.IsPositive) :
    Indexed clusters entries (ofEntries clusters entries).index.toList := by
  have perm := List.mergeSort_perm entries comesFirst
  have falling := falling_mergeSort entries
  obtain ⟨front, eq, swept⟩ := swept_sweep clusters [] falling
    (fun e he => positive e (perm.mem_iff.mp he)) []
  have index : (ofEntries clusters entries).index.toList = front := eq.trans (List.append_nil _)
  rw [index]
  refine ⟨fun x hx => ⟨_, perm, swept.snapshots x hx⟩, swept.rising, fun x hx => ?_, fun e he => ?_⟩
  · obtain ⟨e, he, same⟩ := swept.occurs x hx
    exact ⟨e, perm.mem_iff.mp he, same⟩
  · exact swept.complete e (perm.mem_iff.mpr he)

end MatchingDependencies.Comparison.Row
