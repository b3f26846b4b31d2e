import MatchingDependencies.Proofs.Inference.Agenda
import MatchingDependencies.Proofs.Schedule.Notes
import MatchingDependencies.Proofs.Search

/-!
# A search keeps the lattice in order

Inference and traversal insert premises of nodes with one threshold raised to a
natural one. So whatever the measures answer, and in whichever order the
premises arrive, the nodes of a lattice that a search leads to stand in proper
paths of natural thresholds.
-/

set_option autoImplicit false

namespace MatchingDependencies

open MatchingDependencies.Path (Allowed)

variable {q : Setting} {l : Lattice} {v : Scores} {p : Path}

abbrev Lattice.OrderedBy (d : Dataset) (l : Lattice) : Prop := l.Ordered d.Natural d.width

namespace Inference

theorem ordered_weaken (h : l.OrderedBy q.data) (p : Path) (i : Nat) (reached : Score) :
    (weaken l p i reached).OrderedBy q.data := by
  have lowered := (h.setBound p i 0).markChanged p
  rw [weaken]
  split
  · have asked := lowered.isImplied p reached i
    split
    · next found => rwa [found] at asked
    · next found =>
      rw [found] at asked
      exact asked.setBound p i reached
  · exact lowered

variable {failed : Path} {state : Lattice × Nat}

section Premise

variable (natural : ∀ x ∈ failed, q.data.Natural x.1 x.2) (hp : p.Proper q.data.Natural 0)

include natural hp

theorem ordered_refute (h : state.1.OrderedBy q.data) (r : Reach) :
    (refute q failed p state r).1.OrderedBy q.data := by
  obtain ⟨l, count⟩ := state
  rw [refute]
  dsimp only
  split
  · exact h
  · refine List.foldlRecOn failed _ (ordered_weaken h p r.index r.reached) fun l' hl x hx => ?_
    split
    · exact hl.addIfMinimalSupported (hp.set (Nat.zero_le _) (natural x hx)) _ _
    · exact hl

theorem ordered_refutePremise (h : state.1.OrderedBy q.data) (v : Scores) :
    (refutePremise q v failed state p).1.OrderedBy q.data :=
  List.foldlRecOn (motive := fun s : Lattice × Nat => s.1.OrderedBy q.data) _ _ h
    fun _ hs r _ => ordered_refute natural hp hs r

end Premise

theorem ordered_refuteAll (h : l.OrderedBy q.data) (v : Scores) :
    (refuteAll q l v).1.OrderedBy q.data := by
  rw [refuteAll]
  refine List.foldlRecOn (motive := fun s : Lattice × Nat => s.1.OrderedBy q.data) _ _ h
    fun state hs p hp => ?_
  obtain ⟨e, he, rfl⟩ := List.mem_map.mp hp
  exact ordered_refutePremise (fun _ next => Dataset.natural_of_next (v := v) next)
    (h.proper_of_mem_violated he) hs v

theorem ordered_run (i : Inference) {w : Workspace} (h : w.lattice.OrderedBy q.data) :
    (run q i w).2.2.lattice.OrderedBy q.data := by
  obtain ⟨seen, -, looked, -⟩ := run_looked q i w
  rw [looked.lattice, refuteEach]
  exact List.foldlRecOn _ _ h fun _ hl v _ => ordered_refuteAll hl v

end Inference

namespace Traversal

theorem ordered_specialize (corrections : List Correction) (hp : p.Proper q.data.Natural 0)
    {x : Nat × Score} (natural : q.data.Natural x.1 x.2) (h : l.OrderedBy q.data) :
    (specialize q corrections p l x).OrderedBy q.data := by
  have proper := hp.set (Nat.zero_le _) natural
  rw [specialize]
  split
  · exact h
  · refine List.foldlRecOn corrections _ h fun l' hl c _ => ?_
    split
    · exact hl.addIfMinimal proper _ _
    · exact hl

theorem ordered_correct (h : l.OrderedBy q.data) {c : Candidate}
    (hc : c.premise.constraints.Proper q.data.Natural 0) (v : Validation) :
    (correct q l c v).OrderedBy q.data := by
  have lowered : Lattice.OrderedBy q.data (v.corrections.foldl
      (fun l k => l.setBound c.premise.constraints k.index k.newBound) l) :=
    List.foldlRecOn _ _ h fun _ hl k _ => hl.setBound _ k.index k.newBound
  rw [correct]
  split
  · exact lowered.markUnsupported _
  · exact List.foldlRecOn _ _ lowered fun _ hl _ next =>
      ordered_specialize v.corrections hc (Dataset.natural_of_next next) hl

theorem proper_of_mem_nextBatch (h : l.OrderedBy q.data) {s : Schedule} {c : Candidate}
    (hc : c ∈ (s.nextBatch l).1) : c.premise.constraints.Proper q.data.Natural 0 := by
  rw [Schedule.nextBatch_fst] at hc
  obtain ⟨accepted, -⟩ := (Batch.mem_selected_iff _ c).mp hc
  exact (Schedule.sound_accepted h).proper c accepted

theorem ordered_step (t : Traversal) {w : Workspace} (h : w.lattice.OrderedBy q.data) :
    (step q t w).2.2.lattice.OrderedBy q.data := by
  have taken := h.takeLowestChanged
  rw [step_eq]
  split
  · exact taken
  · have proper := fun c => proper_of_mem_nextBatch (s := begun t w) (c := c) taken
    generalize (begun t w).nextBatch w.lattice.takeLowestChanged.2 = next at proper
    obtain ⟨batch, s⟩ := next
    cases batch with
    | nil => exact taken
    | cons c batch =>
      exact List.foldlRecOn (c::batch) _ taken fun _ hl c hc => ordered_correct hl (proper c hc) _

theorem ordered_run {t t' : Traversal} {w w' : Workspace} {all answer : Bool}
    (h : w.lattice.OrderedBy q.data) (result : run q all t w = some (answer, t', w')) :
    w'.lattice.OrderedBy q.data :=
  (run_keeps (fun _ w => w.lattice.OrderedBy q.data) (fun _ _ => True)
    (fun t _ hw => ⟨ordered_step t hw, fun _ => trivial⟩) h result).1

end Traversal

namespace Search

/-- Whatever the measures answer, however a search goes, its lattice is in order. -/
theorem Reachable.ordered (pos : q.data.Natural.Positive) {s : Search}
    (h : Reachable q s) : s.lattice.OrderedBy q.data := by
  induction h with
  | start => exact Lattice.ordered_new pos q.data.natural_within
  | recommend _ _ ih => exact ih
  | discard _ ih => exact ih
  | @apply s v _ _ ih => exact Inference.ordered_refuteAll ih v
  | @infer s _ ih => exact Inference.ordered_run s.inference ih
  | traverse _ result ih =>
    obtain ⟨⟨answer, t, w⟩, ran, eq⟩ := Option.map_eq_some_iff.mp result
    obtain ⟨rfl, rfl⟩ := Prod.mk.inj eq
    exact Traversal.ordered_run ih ran

end Search

end MatchingDependencies
