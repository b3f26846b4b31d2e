import MatchingDependencies.Proofs.Path.Premise
import MatchingDependencies.Schedule.Picker

/-!
# A batch asks at the most general premises

Without the trie, a batch is the list of the accepted candidates, and what an
offer does is said of each of them: whether it is for a generalization, for a
specialization or for the same premise. No column match is asked for at two
premises of which one generalizes the other. What is asked for was offered, and
what was offered is asked for at the same premise or a more general one. So a
batch asks for exactly what was offered at no premise that is more general.
-/

set_option autoImplicit false

namespace MatchingDependencies

namespace Indices

theorem mem_insert_iff (i j : Nat) (s : Indices) : j ∈ insert i s ↔ j = i ∨ j ∈ s := by
  induction s with
  | nil => simp [insert]
  | cons k s ih =>
    rw [insert]
    split
    · simp
    · split
      · next eq => simp [eq]
      · rw [List.mem_cons, ih, List.mem_cons]
        exact or_left_comm

theorem mem_union_iff (a b : Indices) (j : Nat) : j ∈ union a b ↔ j ∈ a ∨ j ∈ b := by
  rw [union]
  induction b generalizing a with
  | nil => simp
  | cons i b ih => rw [List.foldl_cons, ih, mem_insert_iff, List.mem_cons, or_assoc, or_left_comm]

theorem mem_diff_iff (a b : Indices) (j : Nat) : j ∈ diff a b ↔ j ∈ a ∧ j ∉ b := by
  simp [diff]

end Indices

abbrev Batch := List Candidate

namespace Batch

def exclude (batch : Batch) (premise : Scores) (indices : Indices) : Indices :=
  indices.filter fun i =>
    !batch.any fun a => a.path.covers premise.constraints && a.indices.contains i

def narrow (batch : Batch) (premise : Scores) (indices : Indices) : Batch :=
  batch.map fun a => if premise.constraints.covers a.path then a.without indices else a

def add : Batch → Candidate → Batch
  | [], c => [c]
  | a::batch, c => if a.path = c.path then a.joined c.indices :: batch else a :: add batch c

def offer (batch : Batch) (c : Candidate) : Batch :=
  match batch.exclude c.premise c.indices with
  | [] => batch
  | indices => (batch.narrow c.premise indices).add { c with indices }

def selected (batch : Batch) : List Candidate := batch.filter fun c => !c.indices.isEmpty

open MatchingDependencies.Path (Allowed Proper)

def Asks (batch : Batch) (p : Path) (i : Nat) : Prop := ∃ a ∈ batch, a.path = p ∧ i ∈ a.indices

def Requested (candidates : List Candidate) (p : Path) (i : Nat) : Prop :=
  ∃ c ∈ candidates, c.premise.constraints = p ∧ i ∈ c.indices

variable {ok : Allowed} {batch : Batch} {offers : List Candidate} {a b c : Candidate}
  {p g : Path} {i : Nat}

theorem asks_cons_iff (a : Candidate) (batch : Batch) (g : Path) (i : Nat) :
    Asks (a::batch) g i ↔ a.path = g ∧ i ∈ a.indices ∨ batch.Asks g i := by
  simp only [Asks, List.mem_cons, or_and_right, exists_or, exists_eq_left]

theorem mem_exclude_iff (batch : Batch) (premise : Scores) (indices : Indices) (i : Nat) :
    i ∈ batch.exclude premise indices ↔ i ∈ indices ∧
      ∀ a ∈ batch, a.path.covers premise.constraints = true → i ∉ a.indices := by
  simp [exclude]

theorem asks_narrow_iff (pos : ok.Positive) (proper : ∀ a ∈ batch, a.path.Proper ok 0)
    {premise : Scores} (hp : Proper ok 0 premise.constraints) (indices : Indices) (g : Path)
    (i : Nat) : (batch.narrow premise indices).Asks g i ↔
      batch.Asks g i ∧ ¬(premise.constraints.Generalizes g ∧ i ∈ indices) := by
  have covers : ∀ a ∈ batch, (premise.constraints.covers a.path = true ↔
      premise.constraints.Generalizes a.path) := fun a ha =>
    Path.covers_iff pos hp (proper a ha)
  constructor
  · rintro ⟨b, hb, rfl, hi⟩
    obtain ⟨a, ha, rfl⟩ := List.mem_map.mp hb
    by_cases covered : premise.constraints.covers a.path = true
    · rw [if_pos covered] at hi ⊢
      obtain ⟨here, other⟩ := (Indices.mem_diff_iff _ _ _).mp hi
      exact ⟨⟨a, ha, rfl, here⟩, fun h => other h.2⟩
    · rw [if_neg covered] at hi ⊢
      exact ⟨⟨a, ha, rfl, hi⟩, fun h => covered ((covers a ha).mpr h.1)⟩
  · rintro ⟨⟨a, ha, rfl, hi⟩, other⟩
    refine ⟨_, List.mem_map_of_mem ha, ?_⟩
    by_cases covered : premise.constraints.covers a.path = true
    · rw [if_pos covered]
      exact ⟨rfl, (Indices.mem_diff_iff _ _ _).mpr
        ⟨hi, fun taken => other ⟨(covers a ha).mp covered, taken⟩⟩⟩
    · rw [if_neg covered]
      exact ⟨rfl, hi⟩

theorem mem_add (h : b ∈ batch.add c) :
    b = c ∨ b ∈ batch ∨ ∃ a ∈ batch, b = a.joined c.indices := by
  induction batch with
  | nil => exact .inl (List.mem_singleton.mp h)
  | cons k batch ih =>
    rw [add] at h
    split at h
    · rcases List.mem_cons.mp h with rfl | h
      · exact .inr (.inr ⟨k, List.mem_cons_self, rfl⟩)
      · exact .inr (.inl (List.mem_cons_of_mem _ h))
    · rcases List.mem_cons.mp h with rfl | h
      · exact .inr (.inl List.mem_cons_self)
      · rcases ih h with eq | h | ⟨a, ha, eq⟩
        · exact .inl eq
        · exact .inr (.inl (List.mem_cons_of_mem _ h))
        · exact .inr (.inr ⟨a, List.mem_cons_of_mem _ ha, eq⟩)

theorem asks_add_iff (batch : Batch) (c : Candidate) (g : Path) (i : Nat) :
    (batch.add c).Asks g i ↔ batch.Asks g i ∨ c.path = g ∧ i ∈ c.indices := by
  induction batch with
  | nil => simp [add, Asks]
  | cons a batch ih =>
    rw [add]
    split
    · next same =>
      rw [asks_cons_iff, asks_cons_iff]
      change a.path = g ∧ i ∈ Indices.union _ _ ∨ _ ↔ _
      rw [Indices.mem_union_iff, and_or_left, or_right_comm, same]
    · rw [asks_cons_iff, asks_cons_iff, ih, or_assoc]

theorem add_eq_modify {place : Nat} (inside : place < batch.length)
    (only : ∀ j a, batch[j]? = some a → (a.path = c.path ↔ j = place)) :
    batch.add c = batch.modify place (·.joined c.indices) := by
  induction batch generalizing place with
  | nil => exact absurd inside (Nat.not_lt_zero place)
  | cons a batch ih =>
    have here := only 0 a rfl
    rw [add]
    cases place with
    | zero => rw [if_pos (here.mpr rfl), List.modify_zero_cons]
    | succ place =>
      rw [if_neg (by rw [here]; omega), List.modify_succ_cons,
        ih (Nat.lt_of_succ_lt_succ inside) fun j b hb => ?_]
      rw [only (j+1) b hb]
      omega

theorem add_eq_append (new : ∀ a ∈ batch, a.path ≠ c.path) : batch.add c = batch ++ [c] := by
  induction batch with
  | nil => rfl
  | cons a batch ih =>
    rw [add, if_neg (new a List.mem_cons_self), ih fun b hb => new b (List.mem_cons_of_mem _ hb)]
    rfl

abbrev Distinct (batch : Batch) : Prop := batch.Pairwise fun a b => a.path ≠ b.path

theorem Distinct.add (distinct : batch.Distinct) (c : Candidate) : (batch.add c).Distinct := by
  induction batch with
  | nil => exact List.pairwise_singleton ..
  | cons a batch ih =>
    obtain ⟨here, later⟩ := List.pairwise_cons.mp distinct
    rw [Batch.add]
    split
    · exact List.pairwise_cons.mpr ⟨here, later⟩
    · next other =>
      refine List.pairwise_cons.mpr ⟨fun x hx => ?_, ih later⟩
      rcases mem_add hx with rfl | hx | ⟨k, hk, rfl⟩
      · exact other
      · exact here x hx
      · exact here k hk

theorem Distinct.narrow (distinct : batch.Distinct) (premise : Scores) (indices : Indices) :
    (batch.narrow premise indices).Distinct := by
  apply List.pairwise_map.mpr
  apply distinct.imp
  intro a b differ
  split <;> split <;> exact differ

/-- What holds of a batch after some candidates were offered. -/
structure Sound (ok : Allowed) (offers : List Candidate) (batch : Batch) : Prop where
  proper : ∀ a ∈ batch, a.path.Proper ok 0
  distinct : batch.Distinct
  offered : ∀ a ∈ batch, ∃ c ∈ offers, c.premise = a.premise ∧
    c.node = a.node
  asked : ∀ p i, batch.Asks p i → Requested offers p i
  antichain : ∀ g p i, batch.Asks g i → batch.Asks p i → g.Generalizes p → g = p
  covered : ∀ p i, Requested offers p i → ∃ g, g.Generalizes p ∧ batch.Asks g i

theorem sound_nil (ok : Allowed) : Sound ok [] [] :=
  ⟨by simp, .nil, by simp, by simp [Asks], by simp [Asks], by simp [Requested]⟩

section Offer

variable (h : Sound ok offers batch)

include h

theorem Sound.asked_append {p : Path} {i : Nat} (asks : batch.Asks p i) (c : Candidate) :
    Requested (offers ++ [c]) p i := by
  obtain ⟨c', hc', eq⟩ := h.asked p i asks
  exact ⟨c', List.mem_append_left _ hc', eq⟩

theorem Sound.offered_append (ha : a ∈ batch) (c : Candidate) :
    ∃ c' ∈ offers ++ [c], c'.premise = a.premise ∧ c'.node = a.node := by
  obtain ⟨c', hc', eq⟩ := h.offered a ha
  exact ⟨c', List.mem_append_left _ hc', eq⟩

theorem Sound.excluded (pos : ok.Positive) (hc : Proper ok 0 c.premise.constraints)
    (hi : i ∈ c.indices) (out : i ∉ batch.exclude c.premise c.indices) :
    ∃ g, g.Generalizes c.premise.constraints ∧ batch.Asks g i := by
  rw [mem_exclude_iff] at out
  simp only [hi, true_and, Classical.not_forall, Classical.not_not] at out
  obtain ⟨a, ha, covers, asks⟩ := out
  exact ⟨a.path, (Path.covers_iff pos (h.proper a ha) hc).mp covers, a, ha, rfl, asks⟩

theorem Sound.leave_out (pos : ok.Positive) (hc : Proper ok 0 c.premise.constraints)
    (none : batch.exclude c.premise c.indices = []) : Sound ok (offers ++ [c]) batch := by
  refine ⟨h.proper, h.distinct, fun a ha => h.offered_append ha c,
    fun p i asks => h.asked_append asks c, h.antichain, fun p i => ?_⟩
  rintro ⟨c', hc', rfl, hi⟩
  rcases List.mem_append.mp hc' with hc' | hc'
  · exact h.covered _ i ⟨c', hc', rfl, hi⟩
  · obtain rfl := List.mem_singleton.mp hc'
    exact h.excluded pos hc hi (by simp [none])

theorem Sound.nonempty (hc : c ∈ offers) (some : c.indices ≠ []) : ∃ p i, batch.Asks p i := by
  obtain ⟨i, hi⟩ := List.exists_mem_of_ne_nil _ some
  obtain ⟨g, -, asks⟩ := h.covered _ i ⟨c, hc, rfl, hi⟩
  exact ⟨g, i, asks⟩

/-- A batch asks for what was offered at no premise that is more general. -/
theorem Sound.asks_iff (pos : ok.Positive)
    (proper : ∀ c ∈ offers, Proper ok 0 c.premise.constraints) (p : Path) (i : Nat) :
    batch.Asks p i ↔
      Requested offers p i ∧ ∀ g, Requested offers g i → g.Generalizes p → g = p := by
  constructor
  · intro asks
    have requested := h.asked p i asks
    refine ⟨requested, fun g offered general => ?_⟩
    obtain ⟨g', general', asks'⟩ := h.covered g i offered
    obtain rfl := h.antichain g' p i asks' asks (general'.trans general)
    obtain ⟨c, hc, rfl, -⟩ := requested
    obtain ⟨c', hc', rfl, -⟩ := offered
    exact general.antisymm pos (proper c' hc') (proper c hc) general'
  · rintro ⟨requested, least⟩
    obtain ⟨g, general, asks⟩ := h.covered p i requested
    rwa [← least g (h.asked g i asks) general]

end Offer

theorem mem_narrow {premise : Scores} {indices : Indices}
    (hb : b ∈ batch.narrow premise indices) : ∃ a ∈ batch, b.path = a.path ∧
      b.premise = a.premise ∧ b.node = a.node := by
  obtain ⟨a, ha, rfl⟩ := List.mem_map.mp hb
  refine ⟨a, ha, ?_⟩
  split <;> exact ⟨rfl, rfl, rfl⟩

theorem mem_accept {indices : Indices}
    (hb : b ∈ (batch.narrow c.premise indices).add { c with indices }) :
    b = { c with indices } ∨
      ∃ a ∈ batch, b.path = a.path ∧ b.premise = a.premise ∧ b.node = a.node := by
  rcases mem_add hb with eq | hb | ⟨k, hk, rfl⟩
  · exact .inl eq
  · exact .inr (mem_narrow hb)
  · have origin := mem_narrow hk
    exact .inr origin

section Accept

variable (pos : ok.Positive) (h : Sound ok offers batch) (hc : Proper ok 0 c.premise.constraints)

include pos h hc

theorem Sound.asks_accept_iff (indices : Indices) (g : Path) (i : Nat) :
    ((batch.narrow c.premise indices).add { c with indices }).Asks g i ↔
      (batch.Asks g i ∧ ¬(c.premise.constraints.Generalizes g ∧ i ∈ indices)) ∨
        c.premise.constraints = g ∧ i ∈ indices := by
  rw [asks_add_iff, asks_narrow_iff pos h.proper hc]
  exact Iff.rfl

/-- Whoever loses what it asked for loses it to the new candidate, which is more
general. -/
theorem Sound.covered_accept (indices : Indices) {g : Path} (general : g.Generalizes p)
    (old : batch.Asks g i) :
    ∃ g, g.Generalizes p ∧
      ((batch.narrow c.premise indices).add { c with indices }).Asks g i := by
  by_cases taken : c.premise.constraints.Generalizes g ∧ i ∈ indices
  · exact ⟨_, taken.1.trans general,
      (h.asks_accept_iff pos hc indices _ i).mpr (.inr ⟨rfl, taken.2⟩)⟩
  · exact ⟨g, general, (h.asks_accept_iff pos hc indices g i).mpr (.inl ⟨old, taken⟩)⟩

theorem Sound.accept {indices : Indices} (eq : batch.exclude c.premise c.indices = indices) :
    Sound ok (offers ++ [c]) ((batch.narrow c.premise indices).add { c with indices }) := by
  have left := mem_exclude_iff batch c.premise c.indices
  rw [eq] at left
  have asks := h.asks_accept_iff pos hc indices
  refine ⟨fun b hb => ?_, (h.distinct.narrow _ _).add _, fun b hb => ?_, fun p i => ?_,
    fun g p i => ?_, fun p i => ?_⟩
  · rcases mem_accept hb with rfl | ⟨a, ha, eq, -⟩
    · exact hc
    · rw [eq]
      exact h.proper a ha
  · rcases mem_accept hb with rfl | ⟨a, ha, -, premise, node⟩
    · exact ⟨c, List.mem_append_right _ List.mem_cons_self, rfl, rfl⟩
    · rw [premise, node]
      exact h.offered_append ha c
  · rw [asks]
    rintro (⟨old, -⟩ | ⟨eq, new⟩)
    · exact h.asked_append old c
    · exact ⟨c, List.mem_append_right _ List.mem_cons_self, eq, ((left i).mp new).1⟩
  · rw [asks, asks]
    rintro (⟨oldG, keptG⟩ | ⟨rfl, new⟩) (⟨oldP, keptP⟩ | ⟨rfl, new'⟩) general
    · exact h.antichain g p i oldG oldP general
    · -- What a generalization asks for was left out of the offer.
      obtain ⟨a, ha, rfl, hi⟩ := oldG
      have covered := (Path.covers_iff pos (h.proper a ha) hc).mpr general
      exact absurd hi (((left i).mp new').2 a ha covered)
    · exact absurd ⟨general, new⟩ keptP
    · rfl
  · rintro ⟨c', hc', rfl, hi⟩
    rcases List.mem_append.mp hc' with hc' | hc'
    · obtain ⟨g, general, old⟩ := h.covered _ i ⟨c', hc', rfl, hi⟩
      exact h.covered_accept pos hc indices general old
    · obtain rfl := List.mem_singleton.mp hc'
      by_cases new : i ∈ indices
      · exact ⟨_, .refl _, (asks _ i).mpr (.inr ⟨rfl, new⟩)⟩
      · obtain ⟨g, general, old⟩ := h.excluded pos hc hi (eq ▸ new)
        exact h.covered_accept pos hc indices general old

end Accept

theorem Sound.offer (pos : ok.Positive) (h : Sound ok offers batch)
    (hc : Proper ok 0 c.premise.constraints) : Sound ok (offers ++ [c]) (batch.offer c) := by
  rw [Batch.offer]
  split
  · next none => exact h.leave_out pos hc none
  · exact h.accept pos hc rfl

theorem sound_foldl (pos : ok.Positive) (h : Sound ok offers batch) (more : List Candidate)
    (proper : ∀ c ∈ more, Proper ok 0 c.premise.constraints) :
    Sound ok (offers ++ more) (more.foldl Batch.offer batch) := by
  induction more generalizing offers batch with
  | nil => simpa using h
  | cons c more ih =>
    have next := h.offer pos (proper c List.mem_cons_self)
    simpa using ih next fun c hc => proper c (List.mem_cons_of_mem _ hc)

theorem mem_selected_iff (batch : Batch) (c : Candidate) :
    c ∈ batch.selected ↔ c ∈ batch ∧ c.indices ≠ [] := by
  simp [selected]

theorem requested_selected_iff (batch : Batch) (p : Path) (i : Nat) :
    Requested batch.selected p i ↔ batch.Asks p i := by
  constructor
  · rintro ⟨c, hc, rfl, hi⟩
    exact ⟨c, ((mem_selected_iff batch c).mp hc).1, rfl, hi⟩
  · rintro ⟨a, ha, rfl, hi⟩
    exact ⟨a, (mem_selected_iff batch a).mpr ⟨ha, List.ne_nil_of_mem hi⟩, rfl, hi⟩

theorem Sound.distinct_selected (h : Sound ok offers batch) :
    batch.selected.Pairwise fun a b => a.premise.constraints ≠ b.premise.constraints :=
  h.distinct.filter _

end Batch

end MatchingDependencies
