import MatchingDependencies.Proofs.Discovery.Outcome
import MatchingDependencies.Proofs.Inference.Asserting
import MatchingDependencies.Proofs.Traversal.Asserting

/-!
# No assertion fails

Several inferences and traversals may work on one lattice, each of them wherever
it stands and with whatever support it asks for. As long as all of them follow
the same disjointness rule, every claim says more than its premise, premises
demand natural thresholds only, and with the rule no premise constrains what its
claims are about. So no operation fails an assertion on its way.
-/

set_option autoImplicit false

namespace MatchingDependencies

/-- The lattices that applying single vectors, calls of inference and steps of
traversal lead to, in any order. -/
inductive Lattice.Interleaved (d : Dataset) (disjoint : Bool) : Lattice → Prop
  | new : Interleaved d disjoint (Lattice.new d.width)
  | apply {l : Lattice} (h : Interleaved d disjoint l) (minSupport : Nat) (i : Inference)
      {v : Scores} (len : v.length = d.width) (numbered : v.Numbered) :
      Interleaved d disjoint (i.apply ⟨d, minSupport, disjoint⟩ l v).2.2
  | infer {l : Lattice} (h : Interleaved d disjoint l) (minSupport : Nat) {i : Inference}
      (ready : i.Ready d) {pending : Std.TreeSet Counterexample} (real : ∀ c ∈ pending, c.Real d) :
      Interleaved d disjoint (i.run ⟨d, minSupport, disjoint⟩ ⟨l, pending⟩).2.2.lattice
  | step {l : Lattice} (h : Interleaved d disjoint l) (minSupport : Nat) (t : Traversal)
      (pending : Std.TreeSet Counterexample) :
      Interleaved d disjoint (t.step ⟨d, minSupport, disjoint⟩ ⟨l, pending⟩).2.2.lattice

structure Lattice.Asserted (d : Dataset) (disjoint : Bool) (l : Lattice) : Prop where
  claims : ∀ (p : Scores) (i : Nat), (l.bound p.constraints i).isZero = false →
    p.score i < l.bound p.constraints i ∧
      (∀ c, (p.score c).isZero = false → p.score c ∈ (d.comparison c).boundaries) ∧
      (disjoint = true → (p.score i).isZero = true)
  apply : ∀ (minSupport : Nat) (i : Inference) (v : Scores), v.length = d.width → v.Numbered →
    i.applyTo? ⟨d, minSupport, disjoint⟩ l v = some (i.apply ⟨d, minSupport, disjoint⟩ l v)
  infer : ∀ (minSupport : Nat) (i : Inference) (pending : Std.TreeSet Counterexample),
    i.Ready d → (∀ c ∈ pending, c.Real d) →
      i.run? ⟨d, minSupport, disjoint⟩ ⟨l, pending⟩ =
        some (i.run ⟨d, minSupport, disjoint⟩ ⟨l, pending⟩)
  step : ∀ (minSupport : Nat) (t : Traversal) (pending : Std.TreeSet Counterexample),
    t.step? ⟨d, minSupport, disjoint⟩ ⟨l, pending⟩ =
      some (t.step ⟨d, minSupport, disjoint⟩ ⟨l, pending⟩)

variable {q : Setting} {d : Dataset} {disjoint : Bool} {l : Lattice} {p : Scores} {i : Nat}

/-! ## What every operation keeps -/

theorem Lattice.lawful_new (hd : q.data.Sound) : (Lattice.new q.data.width).Lawful q :=
  ⟨(Lattice.sound_new hd).formed, (Lattice.sound_new hd).permitted⟩

theorem Inference.lawful_apply (hd : q.data.Sound) (hl : l.Lawful q) {v : Scores}
    (len : v.length = q.data.width) (numbered : v.Numbered) (i : Inference) :
    (i.apply q l v).2.2.Lawful q :=
  (refuteAll_refutes hd q.data.natural_self len numbered hl.formed).1.lawful hd len numbered hl

theorem Inference.lawful_run (hd : q.data.Sound) (hl : l.Lawful q) {i : Inference}
    (ready : i.Ready q.data) {pending : Std.TreeSet Counterexample}
    (real : ∀ c ∈ pending, c.Real q.data) : (i.run q ⟨l, pending⟩).2.2.lattice.Lawful q := by
  have passed := (run_passed (w := ⟨l, pending⟩) ready real).1
  have reduced := passed.reduced hd q.data.natural_self hl.formed
  exact ⟨reduced.formed, reduced.permitted hl.permitted⟩

theorem Traversal.lawful_step (hd : q.data.Sound) (hl : l.Lawful q) (t : Traversal)
    (pending : Std.TreeSet Counterexample) : (t.step q ⟨l, pending⟩).2.2.lattice.Lawful q := by
  have formed := hl.formed.takeLowestChanged.1
  obtain ⟨event, s, next, more, stepped, -, -, lattice, -⟩ :=
    step_cases (t := t) (w := ⟨l, pending⟩) hl.formed
  rw [lattice]
  cases stepped with
  | finished _ => exact ⟨formed, hl.permitted⟩
  | levelEnded _ _ => exact ⟨formed, hl.permitted⟩
  | batchValidated _ _ chosen =>
    have reworked := (reworked_of_chosen hd formed chosen q.data.natural_self).1
    exact ⟨reworked.formed, reworked.permitted hl.permitted⟩

theorem Lattice.Interleaved.lawful (hd : d.Sound) (h : Interleaved d disjoint l)
    (minSupport : Nat) : l.Lawful ⟨d, minSupport, disjoint⟩ := by
  induction h generalizing minSupport with
  | new => exact Lattice.lawful_new hd
  | apply _ other i len numbered ih =>
    have kept := Inference.lawful_apply hd (ih other) len numbered i
    exact ⟨kept.formed, kept.permitted⟩
  | infer _ other ready real ih =>
    have kept := Inference.lawful_run hd (ih other) ready real
    exact ⟨kept.formed, kept.permitted⟩
  | step _ other t pending ih =>
    have kept := Traversal.lawful_step hd (ih other) t pending
    exact ⟨kept.formed, kept.permitted⟩

/-! ## Claims -/

theorem Lattice.Lawful.permits (hl : l.Lawful q)
    (claimed : (l.bound p.constraints i).isZero = false) :
    p.score i < l.bound p.constraints i ∧
      (∀ c, (p.score c).isZero = false → q.data.Natural c (p.score c)) ∧
        (q.disjoint = true → (p.score i).isZero = true) := by
  have positive : 0 < (l.bound p.constraints i).height := by
    have nonneg := hl.formed.bound_nonneg p.constraints i
    rw [← Bool.not_eq_true, Score.isZero_iff] at claimed
    omega
  have proper := (hl.formed.stored_of_bound positive).1
  obtain ⟨above, disjoint⟩ := hl.permitted p.constraints i positive
  rw [Scores.demand_constraints] at above disjoint
  refine ⟨?_, fun c nonzero => ?_, fun rule => (Score.isZero_iff _).mpr (disjoint rule)⟩
  · have most := hl.formed.bound_le p.constraints i
    have top := Score.unitHeight_lt_top
    rw [Score.lt_iff]
    exact ⟨above, by omega⟩
  · have score := p.score_constraints c
    rw [nonzero, if_neg Bool.false_ne_true] at score
    rw [← score]
    refine proper.allowed _ (Path.mem_of_score_ne_zero c ?_)
    rw [Path.demand, score, Ne, ← Score.isZero_iff, nonzero]
    exact Bool.false_ne_true

namespace Discovery

variable {disc : Discovery} {data : Dataset}

/-- However inferences and traversals share a lattice, no assertion fails. -/
theorem interleaved_asserted (loaded : disc.tables.Loaded) (built : disc.dataset = .ok data)
    (reached : l.Interleaved data disjoint) : l.Asserted data disjoint := by
  have hd : data.Sound := sound_dataset loaded built
  have lawful := reached.lawful hd
  constructor
  · intro p i claimed
    exact (lawful 0).permits claimed
  · intro minSupport i v len numbered
    rw [Inference.applyTo?, Inference.refuteAll?_eq hd len numbered (lawful minSupport)]
    rfl
  · intro minSupport i pending ready real
    exact Inference.run?_eq hd (lawful minSupport) ready real
  · intro minSupport t pending
    exact Traversal.step?_eq hd data.natural_self (lawful minSupport).formed t pending

theorem interleaved_asserted_strangers :
    let i := Inference.start
    let l := (i.apply ⟨strangerData, 0, true⟩ (Lattice.new 2) [0, 0]).2.2
    let l' := (Traversal.start.step ⟨strangerData, 0, true⟩ ⟨l, ∅⟩).2.2.lattice
    let l'' := (Traversal.start.step ⟨strangerData, 3, true⟩ ⟨l', ∅⟩).2.2.lattice
    l.bound (Scores.constraints [1, 0]) 1 = 1 ∧ l.Asserted strangerData true ∧
      l''.Interleaved strangerData true ∧ l''.Asserted strangerData true := by
  intro i l l' l''
  have applied : l.Interleaved strangerData true :=
    Lattice.Interleaved.new.apply 0 i rfl (by decide)
  have reached : l''.Interleaved strangerData true :=
    (applied.step 0 Traversal.start ∅).step 3 Traversal.start ∅
  exact ⟨by with_unfolding_all rfl, interleaved_asserted strangers_loaded build_strangers applied,
    reached, interleaved_asserted strangers_loaded build_strangers reached⟩

end Discovery

end MatchingDependencies
