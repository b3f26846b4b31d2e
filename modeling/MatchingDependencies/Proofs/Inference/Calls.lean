import Mathlib.Data.List.Induction
import MatchingDependencies.Proofs.Inference.Agenda

/-!
# Inference across calls

Inference is called again and again, each time with another lattice and more
counterexamples. Whatever a call does not get to stays on the agenda, and what
was applied is never applied again. So when a call says that it is done, every
profile has been applied once, and not more calls stop early than there are
profiles.
-/

set_option autoImplicit false

namespace MatchingDependencies

namespace Inference

def after (q : Setting) (calls : List Workspace) : Inference :=
  calls.foldl (fun i w => (run q i w).2.1) start

def appliedBy (q : Setting) (i : Inference) (w : Workspace) : List Scores :=
  let whole := wholeAgenda q.data i w
  fresh i.applied (whole.take (whole.length - (agenda q.data (run q i w).2.1).length))

def appliedFrom (q : Setting) : Inference → List Workspace → List Scores
  | _, [] => []
  | i, w::calls => appliedBy q i w ++ appliedFrom q (run q i w).2.1 calls

def log (q : Setting) (calls : List Workspace) : List Scores := appliedFrom q start calls

def Among (v : Scores) (vs : List Scores) : Prop := ∃ u ∈ vs, u.ranks = v.ranks

/-- The profile of a record pair, or of a counterexample that one of the calls received. -/
def Owed (q : Setting) (calls : List Workspace) (v : Scores) : Prop :=
  v ∈ q.data.pairProfiles ∨
    ∃ w ∈ calls, v ∈ stackProfiles q.data w.pending.toList.reverse

structure Exact (q : Setting) (calls : List Workspace) (w : Workspace) : Prop where
  lattice : (run q (after q calls) w).2.2.lattice =
    refuteEach q w.lattice (appliedBy q (after q calls) w)
  count : (run q (after q calls) w).2.1.profileCount =
    (after q calls).profileCount + (appliedBy q (after q calls) w).length
  stopped : (run q (after q calls) w).1 = false → appliedBy q (after q calls) w ≠ []
  finished : (run q (after q calls) w).1 = true →
    ∀ v, Owed q (calls ++ [w]) v → Among v (log q (calls ++ [w]))

/-- What was applied after calls, and what is still to be looked at: nothing is
applied twice, nothing else is applied and nothing is lost. -/
structure Kept (q : Setting) (calls : List Workspace) : Prop where
  known : ∀ ranks, (after q calls).applied.contains ranks = true ↔
    ∃ u ∈ log q calls, u.ranks = ranks
  once : ((log q calls).map Scores.ranks).Nodup
  origin : ∀ v, v ∈ log q calls ∨ v ∈ agenda q.data (after q calls) → Owed q calls v
  owed : ∀ v, Owed q calls v → Among v (log q calls) ∨ Among v (agenda q.data (after q calls))
  pairs : ∀ v ∈ q.data.pairProfiles,
    Among v (log q calls) ∨ Among v (unread q.data (after q calls))

/-- Every profile is applied once: what holds after the calls, what the next call
applies, and an end of the calls that stop early. If all that is owed is among
some profiles, then not more calls stop early than there are such profiles. -/
structure AppliedOnce (q : Setting) (calls : List Workspace) : Prop where
  kept : Kept q calls
  exhausted : (after q calls).isExhausted q.data = true →
    ∀ v ∈ q.data.pairProfiles, Among v (log q calls)
  next : ∀ w, Exact q calls w
  ends : ∀ more vs, (∀ v, Owed q (calls ++ more) v → Among v vs) → vs.length < more.length →
    ∃ before w rest, more = before ++ w::rest ∧ (run q (after q (calls ++ before)) w).1 = true

variable {q : Setting} {calls more : List Workspace} {w : Workspace} {v : Scores}
  {vs ws : List Scores}

theorem Among.mono (h : Among v vs) (sub : vs ⊆ ws) : Among v ws := by
  obtain ⟨u, hu, same⟩ := h
  exact ⟨u, sub hu, same⟩

theorem not_among_nil (v : Scores) : ¬Among v [] := by simp [Among]

theorem after_append (q : Setting) (calls : List Workspace) (w : Workspace) :
    after q (calls ++ [w]) = (run q (after q calls) w).2.1 := by
  simp [after]

theorem appliedFrom_append (q : Setting) (i : Inference) (calls : List Workspace)
    (w : Workspace) : appliedFrom q i (calls ++ [w]) = appliedFrom q i calls ++
      appliedBy q (calls.foldl (fun i w => (run q i w).2.1) i) w := by
  induction calls generalizing i with
  | nil => simp [appliedFrom]
  | cons w' calls ih => simp [appliedFrom, ih]

theorem log_append (q : Setting) (calls : List Workspace) (w : Workspace) :
    log q (calls ++ [w]) = log q calls ++ appliedBy q (after q calls) w :=
  appliedFrom_append q start calls w

theorem owed_append_iff : Owed q (calls ++ [w]) v ↔
    Owed q calls v ∨ v ∈ stackProfiles q.data w.pending.toList.reverse := by
  simp [Owed, or_and_right, exists_or, or_assoc]

theorem appliedBy_eq {i : Inference} {seen : List Scores}
    (whole : wholeAgenda q.data i w = seen ++ agenda q.data (run q i w).2.1) :
    appliedBy q i w = fresh i.applied seen := by
  rw [appliedBy, whole]
  simp

theorem among_profilesFrom (d : Dataset) (hv : v ∈ d.pairProfiles) :
    Among v (profilesFrom d 0 d.leftCount) := by
  obtain ⟨l, r, hl, hr, rfl⟩ := Dataset.mem_pairProfiles_iff.mp hv
  obtain ⟨u, hu, same⟩ := d.exists_mem_profilesOf l hr
  have left : l ∈ List.range' 0 d.leftCount :=
    List.mem_range'_1.mpr ⟨Nat.zero_le l, by rwa [Nat.zero_add]⟩
  exact ⟨u, List.mem_flatMap.mpr ⟨l, left, List.mem_reverse.mpr hu⟩, same⟩

theorem mem_pairProfiles_of_mem_profilesFrom {d : Dataset}
    (hv : v ∈ profilesFrom d 0 d.leftCount) : v ∈ d.pairProfiles := by
  obtain ⟨l, hl, hv⟩ := List.mem_flatMap.mp hv
  have left := (List.mem_range'_1.mp hl).2
  rw [Nat.zero_add] at left
  exact d.mem_pairProfiles_of_mem_profilesOf left v (List.mem_reverse.mp hv)

theorem kept_start (q : Setting) : Kept q [] := by
  have whole : agenda q.data (after q []) = profilesFrom q.data 0 q.data.leftCount := rfl
  constructor
  · intro ranks
    simp [log, appliedFrom, after, start]
  · exact List.nodup_nil
  · rintro v (applied | waiting)
    · nomatch applied
    · rw [whole] at waiting
      exact .inl (mem_pairProfiles_of_mem_profilesFrom waiting)
  · rintro v (pair | ⟨w, hw, -⟩)
    · exact .inr (whole ▸ among_profilesFrom q.data pair)
    · nomatch hw
  · intro v hv
    exact .inr (among_profilesFrom q.data hv)

theorem Among.log_append (h : Among v (log q calls)) (w : Workspace) :
    Among v (log q (calls ++ [w])) := by
  rw [Inference.log_append]
  exact h.mono (List.subset_append_left _ _)

theorem Kept.settled (h : Kept q calls) (owed : Among v (wholeAgenda q.data (after q calls) w)) :
    Among v (log q (calls ++ [w])) ∨ Among v (agenda q.data (after q (calls ++ [w]))) := by
  obtain ⟨u, hu, same⟩ := owed
  obtain ⟨seen, whole, -⟩ := run_looked q (after q calls) w
  have applied := appliedBy_eq whole
  rw [whole] at hu
  rw [log_append, after_append, applied]
  rcases List.mem_append.mp hu with looked | left
  · rcases contains_or_fresh _ seen u looked with known | ⟨x, hx, eq⟩
    · obtain ⟨x, hx, eq⟩ := (h.known u.ranks).mp known
      exact .inl ⟨x, List.mem_append_left _ hx, eq.trans same⟩
    · exact .inl ⟨x, List.mem_append_right _ hx, eq.trans same⟩
  · exact .inr ⟨u, left, same⟩

theorem Kept.origin_of_whole (h : Kept q calls)
    (hv : v ∈ wholeAgenda q.data (after q calls) w) : Owed q (calls ++ [w]) v := by
  rw [owed_append_iff]
  rcases List.mem_append.mp hv with new | old
  · exact .inr new
  · exact .inl (h.origin v (.inr old))

theorem Kept.call (h : Kept q calls) (w : Workspace) : Kept q (calls ++ [w]) := by
  obtain ⟨seen, whole, looked, -, unchanged⟩ := run_looked q (after q calls) w
  have applied := appliedBy_eq whole
  constructor
  · intro ranks
    rw [after_append, looked.applied, contains_insertAll_iff, h.known, log_append, applied]
    simp only [List.mem_append, or_and_right, exists_or]
  · rw [log_append, applied, List.map_append, List.nodup_append]
    refine ⟨h.once, fresh_nodup _ seen, fun a ha b hb same => ?_⟩
    obtain ⟨u, hu, rfl⟩ := List.mem_map.mp ha
    obtain ⟨x, hx, rfl⟩ := List.mem_map.mp hb
    have new := not_contains_of_mem_fresh _ seen x hx
    rw [(h.known x.ranks).mpr ⟨u, hu, same⟩] at new
    nomatch new
  · intro v hv
    rw [log_append, after_append, applied, List.mem_append] at hv
    rcases hv with (old | new) | left
    · exact owed_append_iff.mpr (.inl (h.origin v (.inl old)))
    · exact h.origin_of_whole (whole ▸ List.mem_append_left _ (fresh_subset _ seen new))
    · exact h.origin_of_whole (whole ▸ List.mem_append_right _ left)
  · intro v hv
    rcases owed_append_iff.mp hv with old | new
    · rcases h.owed v old with done | waiting
      · exact .inl (done.log_append w)
      · exact h.settled (waiting.mono (List.subset_append_right _ _))
    · exact h.settled ⟨v, List.mem_append_left _ new, rfl⟩
  · intro v hv
    rcases h.pairs v hv with done | waiting
    · exact .inl (done.log_append w)
    · -- Only an empty stack lets a call turn to record pairs.
      rcases unchanged with stack | same
      · have settled := h.settled (w := w) (waiting.mono fun u hu =>
          List.mem_append_right _ (List.mem_append_right _ hu))
        rw [after_append, agenda_of_stack_nil stack] at settled
        rw [after_append]
        exact settled
      · rw [after_append, same]
        exact .inr waiting

theorem kept (q : Setting) (calls : List Workspace) : Kept q calls := by
  induction calls using List.reverseRecOn with
  | nil => exact kept_start q
  | append_singleton calls w ih => exact ih.call w

theorem exact_call (q : Setting) (calls : List Workspace) (w : Workspace) : Exact q calls w := by
  obtain ⟨seen, whole, looked, stopped, -⟩ := run_looked q (after q calls) w
  have applied := appliedBy_eq whole
  constructor
  · rw [applied]
    exact looked.lattice
  · rw [applied]
    exact looked.count
  · rw [applied]
    exact stopped
  · intro done v hv
    have either := (kept q (calls ++ [w])).owed v hv
    rw [after_append, run_agenda_nil done] at either
    exact either.resolve_right (not_among_nil v)

theorem length_le_log (q : Setting) (calls more : List Workspace)
    (early : ∀ before w rest, more = before ++ w::rest →
      (run q (after q (calls ++ before)) w).1 = false) :
    more.length ≤ (log q (calls ++ more)).length := by
  induction more using List.reverseRecOn with
  | nil => exact Nat.zero_le _
  | append_singleton more w ih =>
    have sooner := ih fun before w' rest eq => early before w' (rest ++ [w]) (by simp [eq])
    have some := (exact_call q (calls ++ more) w).stopped (early more w [] rfl)
    have one := List.length_pos_iff.mpr some
    rw [← List.append_assoc, log_append, List.length_append, List.length_append]
    exact Nat.add_le_add sooner one

theorem Kept.length_log_le (h : Kept q calls) (all : ∀ v, Owed q calls v → Among v vs) :
    (log q calls).length ≤ vs.length := by
  have inside : (log q calls).map Scores.ranks ⊆ vs.map Scores.ranks := by
    intro ranks mem
    obtain ⟨v, hv, rfl⟩ := List.mem_map.mp mem
    obtain ⟨u, hu, same⟩ := all v (h.origin v (.inl hv))
    exact List.mem_map.mpr ⟨u, hu, same⟩
  simpa using h.once.length_le_of_subset inside

/-- Every profile is applied exactly once, whatever the calls are, and wherever they stop. -/
theorem applied_once (q : Setting) (calls : List Workspace) : AppliedOnce q calls := by
  have now := kept q calls
  refine ⟨now, ?_, exact_call q calls, ?_⟩
  · intro exhausted v hv
    have either := now.pairs v hv
    rw [unread_of_exhausted exhausted] at either
    exact either.resolve_right (not_among_nil v)
  · intro more vs all short
    by_contra never
    -- Each call that stops early has applied something.
    have early := length_le_log q calls more fun before w rest eq =>
      Bool.eq_false_iff.mpr fun done => never ⟨before, w, rest, eq, done⟩
    have bound := (kept q (calls ++ more)).length_log_le all
    omega

end Inference

end MatchingDependencies
