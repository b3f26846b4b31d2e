import MatchingDependencies.Proofs.Inference.Rounds
import MatchingDependencies.Proofs.Traversal.Checked
import MatchingDependencies.Proofs.Traversal.Correction

/-!
# Steps of a traversal

A step finds all levels passed, ends a level or validates a batch. Whatever a
lattice claims, a step keeps what the schedule has checked, and a step that
finds all levels passed leaves claims that are all valid. In a search it also
keeps the lattice sound and covering, and recommends record pairs only.
-/

set_option autoImplicit false

namespace MatchingDependencies.Traversal

open MatchingDependencies.Path (Allowed)

variable {ok : Allowed} {q : Setting} {t : Traversal} {w : Workspace}

/-! ## What a step does -/

def begun (t : Traversal) (w : Workspace) : Schedule :=
  match w.lattice.takeLowestChanged.1 with
  | some level => t.schedule.rewind level
  | none => t.schedule

def corrected (q : Setting) (l : Lattice) (batch : List Candidate) : Lattice :=
  batch.foldl (fun l' c => correct q l' c (Validation.run q.data q.minSupport l c)) l

def settled (q : Setting) (l : Lattice) (batch : List Candidate) (s : Schedule) : Schedule :=
  batch.foldl (fun s c => settle s c (Validation.run q.data q.minSupport l c)) s

def found (q : Setting) (l : Lattice) (batch : List Candidate) : List Counterexample :=
  batch.flatMap fun c =>
    (Validation.run q.data q.minSupport l c).findings.flatMap Finding.distinct

/-- What can happen to a schedule and a lattice without noted changes: all levels
are passed, no claim of the level is due, or a batch is validated. -/
inductive Stepped (q : Setting) (s : Schedule) (l : Lattice) :
    TraversalStep → Schedule → Lattice → List Counterexample → Prop
  | finished (passed : s.levelsLeft l = false) : Stepped q s l .finished s l []
  | levelEnded (left : s.levelsLeft l = true)
      (settled : ∀ p n i, (p, n) ∈ l.claims.entries → p.length = s.level → ¬l.Dropped p →
        0 < (n.bound i).height → s.isSettled n.number i (n.bound i) = true) :
      Stepped q s l .levelEnded ⟨s.level+1, ∅⟩ l []
  | batchValidated {batch : List Candidate} (left : s.levelsLeft l = true) (some : batch ≠ [])
      (chosen : s.Chosen q l batch) :
      Stepped q s l .batchValidated (settled q l batch (batch.foldl (Schedule.handOut l) s))
        (corrected q l batch) (found q l batch)

theorem step_eq (q : Setting) (t : Traversal) (w : Workspace) : step q t w =
    if !(begun t w).levelsLeft w.lattice.takeLowestChanged.2 then
      (.finished, { t with schedule := begun t w },
        { w with lattice := w.lattice.takeLowestChanged.2 })
    else
      match (begun t w).nextBatch w.lattice.takeLowestChanged.2 with
      | ([], s) => (.levelEnded, { t with schedule := s },
          { w with lattice := w.lattice.takeLowestChanged.2 })
      | (batch, s) => (.batchValidated,
          ⟨settled q w.lattice.takeLowestChanged.2 batch s, t.validations + batch.length,
            t.batches + 1⟩,
          (⟨corrected q w.lattice.takeLowestChanged.2 batch, w.pending⟩ : Workspace).withPending
            (found q w.lattice.takeLowestChanged.2 batch)) := by
  simp only [settled, corrected, found]
  rw [step]
  simp only [List.foldl_map, List.flatMap_map]
  rfl

theorem step_cases (hl : w.lattice.Formed ok q.data.width) : ∃ event s l more,
    Stepped q (begun t w) w.lattice.takeLowestChanged.2 event s l more ∧
      (step q t w).1 = event ∧ (step q t w).2.1.schedule = s ∧ (step q t w).2.2.lattice = l ∧
        ∀ c ∈ (step q t w).2.2.pending, c ∈ w.pending ∨ c ∈ more := by
  rw [step_eq]
  cases left : (begun t w).levelsLeft w.lattice.takeLowestChanged.2 with
  | false => exact ⟨_, _, _, _, .finished left, rfl, rfl, rfl, fun c hc => .inl hc⟩
  | true =>
    rcases Schedule.nextBatch_cases (s := begun t w) hl.takeLowestChanged.1 with
      ⟨next, settled⟩ | ⟨batch, some, next, chosen⟩
    · rw [next]
      exact ⟨_, _, _, _, .levelEnded left settled, rfl, rfl, rfl, fun c hc => .inl hc⟩
    · obtain ⟨c, rest, rfl⟩ := List.exists_cons_of_ne_nil some
      rw [next]
      refine ⟨_, _, _, _, .batchValidated left some chosen, rfl, rfl, rfl, fun c hc => ?_⟩
      simpa using Std.TreeSet.mem_insertMany_list.mp hc

/-! ## What a step keeps -/

theorem agree_settle {claims : Nat → Nat → Prop} (s : Schedule) {c : Candidate} {v : Validation}
    (other : ∀ k ∈ v.corrections, ¬claims c.node k.index) :
    Schedule.Agree claims s (settle s c v) :=
  Schedule.Agree.foldl (fun s k hk => Schedule.agree_settle s _ (other k hk)) s

theorem real_of_mem_distinct {d : Dataset} {f : Finding}
    (h : ∀ k ∈ f.lefts, k ∈ d.tables.left.kinds ∧
      ∃ r, r < d.rightCount ∧ f.right = d.rightRecord r) :
    ∀ c ∈ f.distinct, c.Real d := by
  intro c hc
  obtain ⟨k, hk, rfl⟩ := List.mem_map.mp hc
  obtain ⟨kind, r, hr, eq⟩ := h k hk
  obtain ⟨l, hl, same⟩ := Table.exists_member kind
  exact ⟨l, r, hl, hr, by rw [eq, Dataset.leftRecord, same]⟩

section Batch

variable {l : Lattice} {s : Schedule} {batch : List Candidate} (hd : q.data.Sound)
  (hl : l.Formed ok q.data.width) (chosen : s.Chosen q l batch)

include hd hl chosen

theorem reworked_of_chosen (natural : ∀ c t, q.data.Natural c t → ok c t) :
    Reworked ok q batch l (corrected q l batch) ∧
      (∀ c ∈ batch, SettledAt q l (corrected q l batch) c) ∧
      ((∀ c ∈ batch, (Validation.run q.data q.minSupport l c).corrections = []) ∧
          corrected q l batch = l ∨ ∃ c ∈ batch, ∃ i ∈ c.indices,
        ((corrected q l batch).bound c.path i).height < (l.bound c.path i).height) :=
  foldl_reworked hd natural hl hl (apart_of_chosen chosen) (fun _ hc => live_of_chosen hl chosen hc)
    fun _ hc => validated_of_chosen hl chosen hd hc

theorem agree_settled : Schedule.Agree (fun n i => ¬∃ c ∈ batch, c.node = n ∧ i ∈ c.indices) s
    (settled q l batch (batch.foldl (Schedule.handOut l) s)) := by
  refine (Schedule.Agree.foldl (fun s c hc => ?_) s).trans
    (Schedule.Agree.foldl (fun s c hc => ?_) _)
  · exact Schedule.agree_handOut l s fun i hi other => other ⟨c, hc, rfl, hi⟩
  · refine agree_settle s fun k hk other => other ⟨c, hc, rfl, ?_⟩
    exact ((live_of_chosen hl chosen hc).mem_corrections hd
      (validated_of_chosen hl chosen hd hc).sound hl hk).1

theorem real_found : ∀ c ∈ found q l batch, c.Real q.data := by
  intro c hc
  obtain ⟨candidate, hb, hc⟩ := List.mem_flatMap.mp hc
  obtain ⟨f, hf, hc⟩ := List.mem_flatMap.mp hc
  exact real_of_mem_distinct ((validated_of_chosen hl chosen hd hb).sound.real f hf) c hc

end Batch

structure Poised (ok : Allowed) (q : Setting) (t : Traversal) (w : Workspace) : Prop where
  formed : w.lattice.Formed ok q.data.width
  checked : Checked q t.schedule w.lattice
  pending : ∀ c ∈ w.pending, c.Real q.data

/-- Every step keeps what is checked and claims nothing new, and a step that finds
all levels passed leaves valid claims. -/
theorem Poised.step (hd : q.data.Sound) (natural : ∀ c t, q.data.Natural c t → ok c t)
    (h : Poised ok q t w) : Poised ok q (step q t w).2.1 (step q t w).2.2 ∧
      Lattice.Entails w.lattice (step q t w).2.2.lattice ∧
      ((step q t w).1 = .finished → AllValid q (step q t w).2.2.lattice) := by
  obtain ⟨hl, quiet⟩ := h.formed.takeLowestChanged
  have checked : Checked q (begun t w) w.lattice.takeLowestChanged.2 := h.checked.rewound
  have same : Lattice.Entails w.lattice w.lattice.takeLowestChanged.2 := .refl w.lattice
  obtain ⟨event, s, l, more, stepped, happened, schedule, lattice, pending⟩ :=
    step_cases (t := t) h.formed
  suffices (l.Formed ok q.data.width ∧ Checked q s l ∧ ∀ c ∈ more, c.Real q.data) ∧
      Lattice.Entails w.lattice l ∧ (event = .finished → AllValid q l) by
    obtain ⟨⟨formed, checked, real⟩, entails, valid⟩ := this
    rw [happened, lattice]
    refine ⟨⟨lattice ▸ formed, schedule ▸ lattice ▸ checked, fun c hc => ?_⟩, entails, valid⟩
    rcases pending c hc with before | new
    · exact h.pending c before
    · exact real c new
  cases stepped with
  | finished passed =>
    exact ⟨⟨hl, checked, fun c hc => absurd hc List.not_mem_nil⟩, same,
      fun _ => checked.allValid hl quiet passed⟩
  | levelEnded _ settled =>
    exact ⟨⟨hl, checked.ended hl settled, fun c hc => absurd hc List.not_mem_nil⟩, same,
      fun finished => nomatch finished⟩
  | batchValidated _ _ chosen =>
    obtain ⟨reworked, settled, -⟩ := reworked_of_chosen hd hl chosen natural
    exact ⟨⟨reworked.formed, checked.validated hl chosen reworked settled
      (agree_settled hd hl chosen), real_found hd hl chosen⟩, same.trans reworked.entails,
      fun finished => nomatch finished⟩

/-- What traversal and inference rely on. -/
structure Upright (q : Setting) (t : Traversal) (w : Workspace) : Prop where
  lattice : w.lattice.Sound q
  covers : w.lattice.Covers q
  checked : Checked q t.schedule w.lattice
  pending : ∀ c ∈ w.pending, c.Real q.data

theorem Upright.poised (h : Upright q t w) : Poised q.data.Natural q t w :=
  ⟨h.lattice.formed, h.checked, h.pending⟩

theorem Upright.step (hd : q.data.Sound) (h : Upright q t w) :
    Upright q (step q t w).2.1 (step q t w).2.2 ∧
      ((step q t w).1 = .finished → AllValid q (step q t w).2.2.lattice) := by
  obtain ⟨hl, -⟩ := h.lattice.takeLowestChanged
  have hc : w.lattice.takeLowestChanged.2.Covers q := h.covers
  obtain ⟨poised, -, valid⟩ := h.poised.step hd q.data.natural_self
  obtain ⟨event, s, l, more, stepped, -, -, lattice, -⟩ := step_cases (t := t) h.lattice.formed
  suffices l.Sound q ∧ l.Covers q from
    ⟨⟨lattice ▸ this.1, lattice ▸ this.2, poised.checked, poised.pending⟩, valid⟩
  cases stepped with
  | finished _ => exact ⟨hl, hc⟩
  | levelEnded _ _ => exact ⟨hl, hc⟩
  | batchValidated _ _ chosen =>
    refine ⟨(reworked_of_chosen hd hl.formed chosen q.data.natural_self).1.sound hl, ?_⟩
    exact foldl_covers hd hl hl hc (apart_of_chosen chosen)
      (fun c hc => ⟨live_of_chosen hl.formed chosen hc, fun _ _ _ _ _ _ => Int.le_refl _⟩)
      fun c hc => validated_of_chosen hl.formed chosen hd hc

/-! ## Runs -/

section Runs

variable (keeps done : Traversal → Workspace → Prop)
  (each : ∀ t w, keeps t w → keeps (step q t w).2.1 (step q t w).2.2 ∧
    ((step q t w).1 = .finished → done (step q t w).2.1 (step q t w).2.2))

include each

theorem runSteps_keeps (all : Bool) (steps : Nat) (h : keeps t w) :
    keeps (runSteps q all steps t w).2.1 (runSteps q all steps t w).2.2 ∧
      ((runSteps q all steps t w).1 = some true →
        done (runSteps q all steps t w).2.1 (runSteps q all steps t w).2.2) := by
  induction steps generalizing t w with
  | zero => exact ⟨h, by simp [runSteps]⟩
  | succ n ih =>
    obtain ⟨kept, finished⟩ := each t w h
    rw [runSteps]
    generalize step q t w = next at kept finished
    obtain ⟨event, t', w'⟩ := next
    dsimp only
    cases answered : answer? all event with
    | none => exact ih kept
    | some answer =>
      refine ⟨kept, fun yes => finished ?_⟩
      obtain rfl := Option.some.inj yes
      cases event with
      | finished => rfl
      | levelEnded => cases answered
      | batchValidated =>
        cases all with
        | true => cases answered
        | false => cases answered

theorem run_keeps {all answer : Bool} (h : keeps t w) {t' : Traversal} {w' : Workspace}
    (result : run q all t w = some (answer, t', w')) :
    keeps t' w' ∧ (answer = true → done t' w') := by
  rw [run, runRounds_eq_runSteps] at result
  generalize 1 * (Nat.pow 2 (enoughDoublings q.data w.lattice) - 1) = n at result
  have steps := runSteps_keeps keeps done each all n h
  generalize runSteps q all n t w = last at steps result
  obtain ⟨answer', t'', w''⟩ := last
  obtain ⟨answer'', said, eq⟩ := Option.map_eq_some_iff.mp result
  obtain ⟨rfl, rest⟩ := Prod.mk.inj eq
  obtain ⟨rfl, rfl⟩ := Prod.mk.inj rest
  exact ⟨steps.1, fun yes => steps.2 (yes ▸ said)⟩

end Runs

theorem Poised.run (hd : q.data.Sound) (natural : ∀ c t, q.data.Natural c t → ok c t)
    (h : Poised ok q t w) {all answer : Bool} {t' : Traversal} {w' : Workspace}
    (result : run q all t w = some (answer, t', w')) :
    Poised ok q t' w' ∧ Lattice.Entails w.lattice w'.lattice ∧
      (answer = true → AllValid q w'.lattice) := by
  obtain ⟨⟨poised, entails⟩, valid⟩ := run_keeps
    (fun t' w' => Poised ok q t' w' ∧ Lattice.Entails w.lattice w'.lattice)
    (fun _ w' => AllValid q w'.lattice)
    (fun t' w' ⟨poised, before⟩ => by
      obtain ⟨next, entails, valid⟩ := poised.step hd natural
      exact ⟨⟨next, before.trans entails⟩, valid⟩) ⟨h, .refl _⟩ result
  exact ⟨poised, entails, valid⟩

theorem Upright.run (hd : q.data.Sound) (h : Upright q t w) {all answer : Bool} {t' : Traversal}
    {w' : Workspace} (result : run q all t w = some (answer, t', w')) :
    Upright q t' w' ∧ (answer = true → AllValid q w'.lattice) :=
  run_keeps (Upright q) (fun _ w => AllValid q w.lattice) (fun _ _ h => Upright.step hd h) h result

end MatchingDependencies.Traversal
