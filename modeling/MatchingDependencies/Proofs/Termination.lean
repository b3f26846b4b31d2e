import MatchingDependencies.Proofs.History
import MatchingDependencies.Proofs.Traversal.Termination

/-!
# The search comes to an end

In whatever state a search is, inference goes through the record pairs that are
left and traversal has an answer. A round in which inference stops early
applies a profile that was not applied before, and the others are the last ones.
-/

set_option autoImplicit false

namespace MatchingDependencies.Search

variable {q : Setting} {s first : Search} {vs : List Scores}

def Known (q : Setting) (s : Search) : Prop :=
  ∀ ranks ∈ s.inference.applied, ∃ v ∈ q.data.pairProfiles, v.ranks = ranks

theorem start_known (q : Setting) : (start q.data).Known q := fun _ mem =>
  absurd mem Std.HashSet.not_mem_empty

theorem Known.infer (h : s.Known q) {ok : Path.Allowed} (workable : s.Workable ok q) :
    (s.infer q).2.Known q :=
  (Inference.run_passed workable.ready workable.poised.pending).1.known h

theorem Known.size_le (h : s.Known q) : s.inference.applied.size ≤ q.data.totalPairs :=
  Inference.size_le_totalPairs h

theorem infer_stopped {ok : Path.Allowed} (workable : s.Workable ok q)
    (stopped : (s.infer q).1 = false) :
    s.inference.applied.size < (s.infer q).2.inference.applied.size :=
  (Inference.run_passed workable.ready workable.poised.pending).2.2.2 stopped

def Completes (q : Setting) (s last : Search) : Prop :=
  (s.infer q).1 = true ∧ (s.infer q).2.traverse q true = some (true, last)

/-- Inference and traversal end when they are called now, and so do rounds of them. -/
structure Ends (q : Setting) (s : Search) : Prop where
  /-- Inference that is done has looked at all record pairs. -/
  inferred : (s.infer q).1 = true → (s.infer q).2.inference.stack = [] ∧
    (s.infer q).2.inference.isExhausted q.data = true
  /-- Inference that is stopped has applied a new profile. -/
  stopped : (s.infer q).1 = false →
    s.inference.applied.size < (s.infer q).2.inference.applied.size ∧
      (s.infer q).2.inference.applied.size ≤ q.data.totalPairs
  /-- Traversal has an answer, and all levels are done if they are asked for. -/
  traversed : ∀ all, ∃ answer s', s.traverse q all = some (answer, s') ∧
    (all = true → answer = true)
  /-- Rounds end with one in which both are done. -/
  rounds : ∃ n s' last, runFor q n s = some last ∧ Completes q s' last

section

variable (hd : q.data.Sound)

include hd

theorem traverse_answers (h : s.Workable q.data.Natural q) (all : Bool) :
    ∃ answer s', s.traverse q all = some (answer, s') ∧ (all = true → answer = true) := by
  obtain ⟨answer, t, w, ran, every⟩ := Traversal.run_answers (t := s.traversal) hd
    h.poised.formed all
  exact ⟨answer, _, by rw [traverse, ran]; rfl, every⟩

/-- As many rounds suffice as there are profiles left to apply, and one more. -/
theorem runFor_answers (rounds : Nat) (h : s.Workable q.data.Natural q) (known : s.Known q)
    (enough : q.data.totalPairs < s.inference.applied.size + rounds) :
    ∃ s' last, runFor q rounds s = some last ∧ Completes q s' last := by
  induction rounds generalizing s with
  | zero =>
    have most := known.size_le
    omega
  | succ n ih =>
    have inferred := (h.infer hd q.data.natural_self).1
    obtain ⟨answer, s', traversed, every⟩ := traverse_answers hd inferred (s.infer q).1
    rw [runFor]
    dsimp only
    rw [traversed]
    cases done : (s.infer q).1 with
    | true =>
      rw [every done, done] at traversed
      rw [every done]
      exact ⟨s, s', rfl, done, traversed⟩
    | false =>
      obtain ⟨workable, -, same, -⟩ := inferred.traverse hd q.data.natural_self traversed
      -- Inference has applied another profile, so fewer are left.
      have less := infer_stopped h done
      refine ih workable (fun ranks mem => known.infer h ranks (same ▸ mem)) ?_
      rw [same]
      omega

theorem run_answers : ∃ last, run q = some last := by
  obtain ⟨-, last, ran, -⟩ := runFor_answers hd (enoughRounds q.data) (start_workable hd)
    (start_known q) (by rw [enoughRounds]; omega)
  exact ⟨last, ran⟩

theorem History.known (begun : first.Workable q.data.Natural q) (none : first.Known q)
    (h : History q first vs s) : s.Known q := by
  induction h with
  | start => exact none
  | recommend _ _ ih => exact ih
  | discard _ ih => exact ih
  | apply _ _ _ ih => exact ih
  | infer before ih => exact ih.infer (before.workable hd q.data.natural_self begun)
  | traverse before result ih =>
    obtain ⟨-, -, same, -⟩ := (before.workable hd q.data.natural_self begun).traverse hd
      q.data.natural_self result
    intro ranks mem
    exact ih ranks (same ▸ mem)

theorem Workable.ends (h : s.Workable q.data.Natural q) (known : s.Known q) : s.Ends q :=
  ⟨Inference.run_exhausts q s.inference s.workspace,
    fun stopped => ⟨infer_stopped h stopped, (known.infer h).size_le⟩, traverse_answers hd h,
    q.data.totalPairs + 1, runFor_answers hd _ h known (by omega)⟩

end

end MatchingDependencies.Search
