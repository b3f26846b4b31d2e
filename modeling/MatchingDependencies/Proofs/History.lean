import MatchingDependencies.Proofs.Search

/-!
# Histories of a search

Inference and traversal may take turns on any lattice, in any order, and any
vectors may be applied to it in between. No operation claims anything that was
not implied before. So what a vector has refuted is never claimed again, and
what a traversal has checked stays checked unless a change was noted.
-/

set_option autoImplicit false

namespace MatchingDependencies.Search

open MatchingDependencies.Path (Allowed)

variable {ok : Allowed} {q : Setting} {s first : Search} {vs : List Scores}

/-- The states that any order of operations leads to, and the vectors that were
applied directly, the last one first. -/
inductive History (q : Setting) (first : Search) : List Scores → Search → Prop
  | start : History q first [] first
  | recommend {vs : List Scores} {s : Search} {c : Counterexample} (h : History q first vs s)
      (real : c.Real q.data) : History q first vs (s.recommend c).2
  | discard {vs : List Scores} {s : Search} (h : History q first vs s) :
      History q first vs { s with workspace := { s.workspace with pending := ∅ } }
  | apply {vs : List Scores} {s : Search} {v : Scores} (h : History q first vs s)
      (len : v.length = q.data.width) (numbered : v.Numbered) :
      History q first (v::vs) (s.apply q v).2
  | infer {vs : List Scores} {s : Search} (h : History q first vs s) :
      History q first vs (s.infer q).2
  | traverse {vs : List Scores} {s s' : Search} {all answer : Bool} (h : History q first vs s)
      (result : s.traverse q all = some (answer, s')) : History q first vs s'

section

variable (hd : q.data.Sound) (natural : ∀ c t, q.data.Natural c t → ok c t)
  (begun : first.Workable ok q)

include hd natural begun

theorem History.workable (h : History q first vs s) : s.Workable ok q := by
  induction h with
  | start => exact begun
  | recommend _ real ih => exact ih.recommend real
  | discard _ ih => exact ih.discard
  | apply _ len numbered ih => exact (ih.apply hd natural len numbered).1
  | infer _ ih => exact (ih.infer hd natural).1
  | traverse _ result ih => exact (ih.traverse hd natural result).1

theorem History.heeds (heedful : first.Heedful q) (h : History q first vs s) :
    (∀ v ∈ vs, v.length = q.data.width ∧ v.Numbered ∧ s.lattice.Heeds v) ∧ s.Heedful q := by
  induction h with
  | start => exact ⟨fun v hv => absurd hv List.not_mem_nil, heedful⟩
  | recommend _ _ ih => exact ih
  | discard _ ih => exact ih
  | @apply vs s w before len numbered ih =>
    obtain ⟨-, entails, heeds⟩ := (before.workable hd natural begun).apply hd natural len numbered
    refine ⟨fun v hv => ?_, fun v hv applied => ?_⟩
    · rcases List.mem_cons.mp hv with rfl | hv
      · exact ⟨len, numbered, heeds⟩
      · obtain ⟨len', numbered', heeds'⟩ := ih.1 v hv
        exact ⟨len', numbered', heeds'.entailed entails numbered'⟩
    · exact (ih.2 v hv applied).entailed entails (hd.numbered_of_mem hv)
  | infer before ih =>
    obtain ⟨-, entails, heedful⟩ := (before.workable hd natural begun).infer hd natural
    refine ⟨fun v hv => ?_, heedful ih.2⟩
    obtain ⟨len, numbered, heeds⟩ := ih.1 v hv
    exact ⟨len, numbered, heeds.entailed entails numbered⟩
  | traverse before result ih =>
    obtain ⟨-, entails, same, -⟩ := (before.workable hd natural begun).traverse hd natural result
    refine ⟨fun v hv => ?_, fun v hv applied => ?_⟩
    · obtain ⟨len, numbered, heeds⟩ := ih.1 v hv
      exact ⟨len, numbered, heeds.entailed entails numbered⟩
    · rw [same] at applied
      exact (ih.2 v hv applied).entailed entails (hd.numbered_of_mem hv)

end

end MatchingDependencies.Search
