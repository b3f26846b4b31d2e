import MatchingDependencies.Proofs.Traversal.Potential
import MatchingDependencies.Proofs.Traversal.Steps

/-!
# Traversal comes to an end

A step that changes no claim ends a level or settles claims of it, so there are
few steps between two changes, and the potential bounds the number of changes.
Going back to a lower level undoes what was settled, but only after a change.
So a traversal takes fewer steps than it may, and has an answer.
-/

set_option autoImplicit false

namespace MatchingDependencies.Traversal

variable {ok : Path.Allowed} {d : Dataset} {q : Setting} {first l l' : Lattice} {s s' : Schedule}
  {event : TraversalStep} {more : List Counterexample} {t : Traversal} {w : Workspace}

/-! ## Steps between changes -/

def unsettled (d : Dataset) (s : Schedule) (l : Lattice) : Finset (Path × Nat) :=
  (places d).filter fun x =>
    (l.find? x.1).any fun n => !s.isSettled n.number x.2 (n.bound x.2)

def remaining (d : Dataset) (first : Lattice) (s : Schedule) (l : Lattice) : Nat :=
  (max first.maxLevel d.width + 1 - s.level) * (claimCount d first + 1) + (unsettled d s l).card

theorem card_unsettled_le (d : Dataset) (first : Lattice) (s : Schedule) (l : Lattice) :
    (unsettled d s l).card ≤ claimCount d first :=
  Nat.le_trans (Finset.card_filter_le ..) (card_places_le d first)

theorem remaining_lt (d : Dataset) (first : Lattice) (s : Schedule) (l : Lattice) :
    remaining d first s l < stepsBetweenChanges d first := by
  have few := card_unsettled_le d first s l
  have levels : max first.maxLevel d.width + 2 ≤ first.maxLevel + d.width + 2 := by omega
  calc remaining d first s l
      < (max first.maxLevel d.width + 1) * (claimCount d first + 1) + (claimCount d first + 1) :=
        Nat.add_lt_add_of_le_of_lt (Nat.mul_le_mul_right _ (Nat.sub_le ..)) (by omega)
    _ = (max first.maxLevel d.width + 2) * (claimCount d first + 1) := (Nat.succ_mul ..).symm
    _ ≤ stepsBetweenChanges d first := Nat.mul_le_mul levels (Nat.le_succ _)

theorem mem_unsettled_iff {p : Path} {n : Node} (found : l.find? p = some n) (i : Nat) :
    (p, i) ∈ unsettled d s l ↔
      (p, i) ∈ places d ∧ s.isSettled n.number i (n.bound i) = false := by
  simp [unsettled, found]

theorem unsettled_handOut_lt (hl : l.Formed q.data.Natural q.data.width) {batch : List Candidate}
    (some : batch ≠ []) (chosen : s.Chosen q l batch) :
    (unsettled q.data (batch.foldl (Schedule.handOut l) s) l).card <
      (unsettled q.data s l).card := by
  have settled := fun p n (he : (p, n) ∈ l.claims.entries) =>
    Schedule.isSettled_foldl_handOut_iff (s := s) hl (fun c hc => by
      obtain ⟨n, he, number, -⟩ := chosen.listed c hc
      exact ⟨n, he, number⟩) he
  have subset : unsettled q.data (batch.foldl (Schedule.handOut l) s) l ⊆
      unsettled q.data s l := by
    rintro ⟨p, i⟩ hx
    cases found : l.find? p with
    | none => simp [unsettled, found] at hx
    | some n =>
      rw [mem_unsettled_iff found, ← Bool.not_eq_true] at hx ⊢
      have entry := hl.claims.find?_eq_some_iff.mp found
      exact ⟨hx.1, fun before => hx.2 ((settled p n entry i).mpr (.inr before))⟩
  refine Finset.card_lt_card ((Finset.ssubset_iff_of_subset subset).mpr ?_)
  obtain ⟨c, hc⟩ := List.exists_mem_of_ne_nil _ some
  obtain ⟨i, hi⟩ := List.exists_mem_of_ne_nil _ (chosen.asks c hc)
  obtain ⟨n, he, -, -, -, -, due⟩ := chosen.listed c hc
  have found : l.find? c.path = .some n := hl.claims.find?_eq_some_iff.mpr he
  have claimed := (live_of_chosen hl chosen hc).claimed i hi
  refine ⟨(c.path, i), (mem_unsettled_iff found i).mpr ⟨mem_places hl claimed, ?_⟩, fun mem => ?_⟩
  · exact ((Schedule.mem_due_iff s n i).mp (due i hi)).2.2
  · have before := ((mem_unsettled_iff found i).mp mem).2
    rw [(settled c.path n he i).mpr (.inl ⟨c, hc, rfl, hi⟩)] at before
    nomatch before

theorem settled_of_silent {batch : List Candidate}
    (silent : ∀ c ∈ batch, (Validation.run q.data q.minSupport l c).corrections = []) :
    settled q l batch s = s := by
  rw [settled]
  induction batch with
  | nil => rfl
  | cons c batch ih =>
    rw [List.foldl_cons, settle, silent c List.mem_cons_self]
    exact ih fun c hc => silent c (List.mem_cons_of_mem _ hc)

/-- Every step but the last changes claims or leaves less to do on the same
lattice. -/
theorem Stepped.progress (hd : q.data.Sound) (hf : first.Formed ok q.data.width)
    (h : Ranged q.data first l) (stepped : Stepped q s l event s' l' more) :
    Ranged q.data first l' ∧ (event = .finished ∨
      potential q.data first l' < potential q.data first l ∨
      l' = l ∧ remaining q.data first s' l < remaining q.data first s l) := by
  cases stepped with
  | finished _ => exact ⟨h, .inl rfl⟩
  | levelEnded left _ =>
    refine ⟨h, .inr (.inr ⟨rfl, ?_⟩)⟩
    have few := card_unsettled_le q.data first ⟨s.level+1, ∅⟩ l
    have most := h.maxLevel
    have inside : s.level ≤ l.maxLevel := of_decide_eq_true left
    have levels : max first.maxLevel q.data.width + 1 - s.level =
        max first.maxLevel q.data.width + 1 - (s.level+1) + 1 := by omega
    rw [remaining, remaining, levels, Nat.succ_mul]
    dsimp only
    omega
  | @batchValidated batch _ some chosen =>
    obtain ⟨reworked, -, outcome⟩ := reworked_of_chosen hd h.formed chosen q.data.natural_self
    refine ⟨h.reworked hd reworked, .inr ?_⟩
    rcases outcome with ⟨silent, same⟩ | ⟨c, -, i, -, lost⟩
    · have level := (agree_settled hd h.formed chosen).level
      have less := unsettled_handOut_lt h.formed some chosen
      rw [settled_of_silent silent] at level ⊢
      refine .inr ⟨same, ?_⟩
      rw [remaining, remaining, level]
      exact Nat.add_lt_add_left less _
    · exact .inl (potential_lt hd hf h reworked lost)

/-! ## All steps -/

/-- At most as many steps are left. -/
def outstanding (q : Setting) (first : Lattice) (t : Traversal) (w : Workspace) : Nat :=
  potential q.data first w.lattice * stepsBetweenChanges q.data first +
    remaining q.data first (begun t w) w.lattice.takeLowestChanged.2

theorem outstanding_lt (hf : first.Formed ok q.data.width) (t : Traversal) (w : Workspace) :
    outstanding q first t w < enoughSteps q.data first := by
  have few := potential_lt_pow hf w.lattice
  have rest := remaining_lt q.data first (begun t w) w.lattice.takeLowestChanged.2
  rw [enoughSteps, Nat.succ_mul]
  exact Nat.add_lt_add_of_le_of_lt (Nat.mul_le_mul_right _ (Nat.le_of_lt few)) rest

theorem step_outstanding (hd : q.data.Sound) (hf : first.Formed ok q.data.width)
    (h : Ranged q.data first w.lattice) :
    Ranged q.data first (step q t w).2.2.lattice ∧ ((step q t w).1 = .finished ∨
      outstanding q first (step q t w).2.1 (step q t w).2.2 < outstanding q first t w) := by
  have quiet : Ranged q.data first w.lattice.takeLowestChanged.2 :=
    ⟨h.formed.takeLowestChanged.1, h.values, h.maxLevel⟩
  obtain ⟨event, s, l, more, stepped, happened, schedule, lattice, -⟩ :=
    step_cases (t := t) h.formed
  obtain ⟨ranged, progress⟩ := stepped.progress hd hf quiet
  rw [happened]
  refine ⟨lattice ▸ ranged, progress.imp_right fun progress => ?_⟩
  rw [outstanding, outstanding, lattice]
  generalize (step q t w).2.2 = w' at lattice
  generalize (step q t w).2.1 = t' at schedule
  have rest := remaining_lt q.data first (begun t' w') l.takeLowestChanged.2
  rcases progress with fall | ⟨rfl, less⟩
  · calc _ < (potential q.data first l + 1) * stepsBetweenChanges q.data first := by
          rw [Nat.succ_mul]
          exact Nat.add_lt_add_left rest _
      _ ≤ potential q.data first w.lattice * stepsBetweenChanges q.data first :=
        Nat.mul_le_mul_right _ fall
      _ ≤ _ := Nat.le_add_right ..
  · -- No change is noted, so the next step does not go back.
    have same : begun t' w' = s := by
      rw [begun, lattice]
      exact schedule
    rw [same]
    exact Nat.add_lt_add_left less _

theorem runSteps_answers (hd : q.data.Sound) (hf : first.Formed ok q.data.width) (all : Bool)
    (steps : Nat) (h : Ranged q.data first w.lattice) (enough : outstanding q first t w < steps) :
    ∃ answer, (runSteps q all steps t w).1 = some answer ∧ (all = true → answer = true) := by
  induction steps generalizing t w with
  | zero => exact absurd enough (Nat.not_lt_zero _)
  | succ n ih =>
    obtain ⟨ranged, progress⟩ := step_outstanding (t := t) hd hf h
    rw [runSteps]
    generalize step q t w = next at ranged progress
    obtain ⟨event, t', w'⟩ := next
    have rest : event ≠ .finished → ∃ answer, (runSteps q all n t' w').1 = some answer ∧
        (all = true → answer = true) := fun goesOn => by
      have less : outstanding q first t' w' < outstanding q first t w :=
        progress.resolve_left goesOn
      exact ih ranged (by omega)
    cases event with
    | finished => exact ⟨true, rfl, fun _ => rfl⟩
    | levelEnded => exact rest (by simp)
    | batchValidated =>
      cases all with
      | true => exact rest (by simp)
      | false => exact ⟨false, rfl, by simp⟩

theorem run_answers (hd : q.data.Sound) (hl : w.lattice.Formed q.data.Natural q.data.width)
    (all : Bool) : ∃ answer t' w', run q all t w = some (answer, t', w') ∧
      (all = true → answer = true) := by
  have enough := enoughSteps_lt_two_pow q.data w.lattice
  have few := outstanding_lt hl t w
  obtain ⟨answer, answered, every⟩ := runSteps_answers (t := t) hd hl all
    (1 * (Nat.pow 2 (enoughDoublings q.data w.lattice) - 1)) (ranged_self hl) (by omega)
  rw [run, runRounds_eq_runSteps]
  generalize runSteps q all _ t w = last at answered
  obtain ⟨answer', t', w'⟩ := last
  exact ⟨answer, t', w', by rw [show answer' = some answer from answered]; rfl, every⟩

end MatchingDependencies.Traversal
