import MatchingDependencies.Proofs.Traversal.Steps
import MatchingDependencies.Search

/-!
# What a search keeps

However inference and traversal take turns, and whatever record pairs are
recommended or applied in between, what they rely on is kept, and nothing is
claimed that was not implied before. In a search the lattice also stays sound and
implies every admissible bound, and in the end all claims are valid.
-/

set_option autoImplicit false

namespace MatchingDependencies.Search

open MatchingDependencies.Path (Allowed)

variable {ok : Allowed} {q : Setting} {s s' : Search} {v : Scores}

/-! ## Any lattice -/

structure Workable (ok : Allowed) (q : Setting) (s : Search) : Prop where
  poised : Traversal.Poised ok q s.traversal s.workspace
  ready : s.inference.Ready q.data

def Heedful (q : Setting) (s : Search) : Prop :=
  ∀ v ∈ q.data.pairProfiles, s.inference.applied.contains v.ranks = true → s.lattice.Heeds v

theorem checked_start (q : Setting) (l : Lattice) :
    Traversal.Checked q Traversal.start.schedule l := by
  refine ⟨fun p i _ below => absurd below (Nat.not_lt_zero _), fun p n i _ _ _ settled => ?_⟩
  simp [Traversal.start, Schedule.start, Schedule.isSettled] at settled

theorem start_workable (hd : q.data.Sound) : (start q.data).Workable q.data.Natural q := by
  refine ⟨⟨Lattice.formed_new hd.natural_positive q.data.natural_within, checked_start q _,
    fun c hc => absurd hc Std.TreeSet.not_mem_emptyc⟩, ?_, ?_⟩
  · simp [start, Inference.start]
  · simp [start, Inference.start]

namespace Workable

theorem recommend (h : s.Workable ok q) {c : Counterexample} (real : c.Real q.data) :
    (s.recommend c).2.Workable ok q := by
  refine ⟨⟨h.poised.formed, h.poised.checked, fun c' hc' => ?_⟩, h.ready⟩
  rcases Std.TreeSet.mem_insertMany_list.mp hc' with old | new
  · exact h.poised.pending c' old
  · have eq : c' = c := by simpa using new
    exact eq ▸ real

theorem discard (h : s.Workable ok q) :
    Workable ok q { s with workspace := { s.workspace with pending := ∅ } } :=
  ⟨⟨h.poised.formed, h.poised.checked, fun _ hc => absurd hc Std.TreeSet.not_mem_emptyc⟩, h.ready⟩

variable (hd : q.data.Sound) (natural : ∀ c t, q.data.Natural c t → ok c t)

include hd natural

theorem apply (h : s.Workable ok q) (len : v.length = q.data.width) (numbered : v.Numbered) :
    (s.apply q v).2.Workable ok q ∧ Lattice.Entails s.lattice (s.apply q v).2.lattice ∧
      (s.apply q v).2.lattice.Heeds v := by
  have formed := h.poised.formed
  obtain ⟨refutes, heeds⟩ := Inference.refuteAll_refutes hd natural len numbered formed
  have reduced := refutes.reduced hd natural len numbered formed
  exact ⟨⟨⟨reduced.formed, h.poised.checked.tracked formed reduced.formed reduced.tracked,
    h.poised.pending⟩, h.ready.stack, h.ready.ahead⟩, reduced.entails, heeds⟩

theorem infer (h : s.Workable ok q) :
    (s.infer q).2.Workable ok q ∧ Lattice.Entails s.lattice (s.infer q).2.lattice ∧
      (s.Heedful q → (s.infer q).2.Heedful q) := by
  have formed := h.poised.formed
  obtain ⟨passed, ready, none, -⟩ := Inference.run_passed h.ready h.poised.pending
  have reduced := passed.reduced hd natural formed
  refine ⟨⟨⟨reduced.formed, h.poised.checked.tracked formed reduced.formed reduced.tracked,
    fun c hc => ?_⟩, ready⟩, reduced.entails, passed.heeds hd natural formed⟩
  change c ∈ (Inference.run q s.inference s.workspace).2.2.pending at hc
  rw [none] at hc
  exact absurd hc Std.TreeSet.not_mem_emptyc

theorem traverse (h : s.Workable ok q) {all answer : Bool}
    (result : s.traverse q all = some (answer, s')) :
    s'.Workable ok q ∧ Lattice.Entails s.lattice s'.lattice ∧ s'.inference = s.inference ∧
      (answer = true → Traversal.AllValid q s'.lattice) := by
  obtain ⟨⟨answer', t, w⟩, ran, eq⟩ := Option.map_eq_some_iff.mp result
  obtain ⟨rfl, rfl⟩ := Prod.mk.inj eq
  obtain ⟨poised, entails, valid⟩ := h.poised.run hd natural ran
  exact ⟨⟨poised, h.ready⟩, entails, rfl, valid⟩

end Workable

/-! ## The lattice of a search -/

/-- What every operation of a search relies on. -/
structure Upright (q : Setting) (s : Search) : Prop where
  shared : Traversal.Upright q s.traversal s.workspace
  ready : s.inference.Ready q.data

theorem Workable.upright (h : s.Workable q.data.Natural q) (sound : s.lattice.Sound q)
    (covers : s.lattice.Covers q) : s.Upright q :=
  ⟨⟨sound, covers, h.poised.checked, h.poised.pending⟩, h.ready⟩

theorem start_upright (hd : q.data.Sound) : (start q.data).Upright q :=
  (start_workable hd).upright (Lattice.sound_new hd) (Lattice.covers_new hd)

namespace Upright

theorem workable (h : s.Upright q) : s.Workable q.data.Natural q := ⟨h.shared.poised, h.ready⟩

theorem recommend (h : s.Upright q) {c : Counterexample} (real : c.Real q.data) :
    (s.recommend c).2.Upright q :=
  (h.workable.recommend real).upright h.shared.lattice h.shared.covers

theorem discard (h : s.Upright q) :
    Upright q { s with workspace := { s.workspace with pending := ∅ } } :=
  h.workable.discard.upright h.shared.lattice h.shared.covers

variable (hd : q.data.Sound)

include hd

theorem apply (h : s.Upright q) (hv : v ∈ q.data.pairProfiles) : (s.apply q v).2.Upright q := by
  have hl := h.shared.lattice
  have len := q.data.length_of_mem_pairProfiles hv
  have numbered := hd.numbered_of_mem hv
  have refutes := (Inference.refuteAll_refutes hd q.data.natural_self len numbered hl.formed).1
  have reduced := refutes.reduced hd q.data.natural_self len numbered hl.formed
  exact (h.workable.apply hd q.data.natural_self len numbered).1.upright (reduced.sound hl)
    (refutes.covers hd hv hl h.shared.covers)

theorem infer (h : s.Upright q) : (s.infer q).2.Upright q := by
  have hl := h.shared.lattice
  have passed := (Inference.run_passed h.ready h.shared.pending).1
  have reduced := passed.reduced hd q.data.natural_self hl.formed
  exact (h.workable.infer hd q.data.natural_self).1.upright (reduced.sound hl)
    (passed.covers hd hl h.shared.covers)

theorem traverse (h : s.Upright q) {all answer : Bool}
    (result : s.traverse q all = some (answer, s')) :
    s'.Upright q ∧ (answer = true → Traversal.AllValid q s'.lattice) := by
  obtain ⟨⟨answer', t, w⟩, ran, eq⟩ := Option.map_eq_some_iff.mp result
  obtain ⟨rfl, rfl⟩ := Prod.mk.inj eq
  obtain ⟨upright, valid⟩ := h.shared.run hd ran
  exact ⟨⟨upright, h.ready⟩, valid⟩

theorem runFor (h : s.Upright q) {rounds : Nat}
    (result : runFor q rounds s = some s') :
    s'.Upright q ∧ Traversal.AllValid q s'.lattice := by
  induction rounds generalizing s with
  | zero => nomatch result
  | succ n ih =>
    have inferred := h.infer hd
    rw [Search.runFor] at result
    generalize Search.infer q s = next at inferred result
    obtain ⟨goOn, s₁⟩ := next
    dsimp only at inferred result
    cases ran : s₁.traverse q goOn with
    | none =>
      rw [ran] at result
      nomatch result
    | some next =>
      obtain ⟨answer, s₂⟩ := next
      obtain ⟨upright, valid⟩ := inferred.traverse hd ran
      rw [ran] at result
      dsimp only at result
      split at result
      · next both =>
        obtain rfl := Option.some.inj result
        exact ⟨upright, valid (Bool.and_eq_true _ _ ▸ both).2⟩
      · exact ih upright result

end Upright

/-! ## Reachable states -/

/-- The states that any order of inference, traversal and recommendations leads to. -/
inductive Reachable (q : Setting) : Search → Prop
  | start : Reachable q (Search.start q.data)
  | recommend {s : Search} {c : Counterexample} (h : Reachable q s) (real : c.Real q.data) :
      Reachable q (s.recommend c).2
  | discard {s : Search} (h : Reachable q s) :
      Reachable q { s with workspace := { s.workspace with pending := ∅ } }
  | apply {s : Search} {v : Scores} (h : Reachable q s) (hv : v ∈ q.data.pairProfiles) :
      Reachable q (s.apply q v).2
  | infer {s : Search} (h : Reachable q s) : Reachable q (s.infer q).2
  | traverse {s s' : Search} {all answer : Bool} (h : Reachable q s)
      (result : s.traverse q all = some (answer, s')) : Reachable q s'

theorem Reachable.runFor (h : Reachable q s) {rounds : Nat}
    (result : Search.runFor q rounds s = some s') : Reachable q s' := by
  induction rounds generalizing s with
  | zero => nomatch result
  | succ n ih =>
    have inferred := h.infer
    rw [Search.runFor] at result
    generalize s.infer q = next at inferred result
    obtain ⟨goOn, s₁⟩ := next
    dsimp only at inferred result
    cases ran : s₁.traverse q goOn with
    | none =>
      rw [ran] at result
      nomatch result
    | some next =>
      obtain ⟨answer, s₂⟩ := next
      rw [ran] at result
      dsimp only at result
      split at result
      · exact Option.some.inj result ▸ inferred.traverse ran
      · exact ih (inferred.traverse ran) result

theorem Reachable.run (result : Search.run q = some s) : Reachable q s :=
  Reachable.start.runFor result

theorem Reachable.upright (hd : q.data.Sound) (h : Reachable q s) : s.Upright q := by
  induction h with
  | start => exact start_upright hd
  | recommend _ real ih => exact ih.recommend real
  | discard _ ih => exact ih.discard
  | apply _ hv ih => exact ih.apply hd hv
  | infer _ ih => exact ih.infer hd
  | traverse _ result ih => exact (ih.traverse hd result).1

end MatchingDependencies.Search
