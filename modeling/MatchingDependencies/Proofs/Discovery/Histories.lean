import MatchingDependencies.Proofs.Discovery.Outcome
import MatchingDependencies.Proofs.History
import MatchingDependencies.Proofs.Lattice.Built
import MatchingDependencies.Proofs.Traversal.Fixpoint

/-!
# What holds along a discovery

Inference skips the profiles that it has applied, and a traversal that is done
does not come back. Both may be, since a claim that was refuted never returns,
and a traversal that says that it is done leaves nothing that validation would
change, whatever was claimed at first.
-/

set_option autoImplicit false

namespace MatchingDependencies.Discovery

open MatchingDependencies.Lattice (claimed)

variable {d : Discovery} {data : Dataset}

/-- A claim that a vector has refuted never comes back: no vector that was applied
directly or by inference refutes a claim again. -/
theorem applied_not_violated (loaded : d.tables.Loaded) (built : d.dataset = .ok data)
    {vs : List Scores}
    {s : Search} (history : Search.History (d.setting data) (Search.start data) vs s) :
    (∀ v ∈ vs, s.lattice.violated v = []) ∧
      ∀ v ∈ data.pairProfiles, s.inference.applied.contains v.ranks = true →
        s.lattice.violated v = [] := by
  have hd : data.Sound := sound_dataset loaded built
  have begun : (Search.start data).Workable data.Natural (d.setting data) :=
    Search.start_workable (q := d.setting data) hd
  have none : (Search.start data).Heedful (d.setting data) := fun v _ applied => by
    simp [Search.start, Inference.start] at applied
  have formed := (history.workable hd data.natural_self begun).poised.formed
  obtain ⟨direct, heedful⟩ := history.heeds hd data.natural_self begun none
  constructor
  · intro v hv
    obtain ⟨len, numbered, heeds⟩ := direct v hv
    exact (formed.violated_eq_nil_iff len numbered).mpr heeds
  · intro v hv applied
    exact (formed.violated_eq_nil_iff (data.length_of_mem_pairProfiles hv)
      (hd.numbered_of_mem hv)).mpr (heedful v hv applied)

def afterStrangers : Search :=
  ((Search.start strangerData).apply (amongStrangers.setting strangerData) [0, 0]).2

theorem violated_strangers : (Search.start strangerData).lattice.violated [0, 0] =
    [([0, 0], ⟨0, #[1, 1]⟩)] := by
  with_unfolding_all rfl

theorem violated_afterStrangers : afterStrangers.lattice.violated [1, 0] =
    [([1, 0], ⟨2, #[0, 1]⟩)] := by
  with_unfolding_all rfl

theorem applied_not_violated_strangers :
    let q := amongStrangers.setting strangerData
    let s := (afterStrangers.apply q [1, 0]).2
    (Search.start strangerData).lattice.violated [0, 0] ≠ [] ∧
      afterStrangers.lattice.violated [1, 0] ≠ [] ∧
      Search.History q (Search.start strangerData) [[1, 0], [0, 0]] s ∧
      (∀ v ∈ [[(1 : Score), 0], [0, 0]], s.lattice.violated v = []) ∧
        ∀ v ∈ strangerData.pairProfiles, s.inference.applied.contains v.ranks = true →
          s.lattice.violated v = [] := by
  intro q s
  have history : Search.History q (Search.start strangerData) [[1, 0], [0, 0]] s :=
    .apply (.apply .start rfl (by decide)) rfl (by decide)
  exact ⟨violated_strangers ▸ List.cons_ne_nil _ _, violated_afterStrangers ▸ List.cons_ne_nil _ _,
    history, applied_not_violated strangers_loaded build_strangers history⟩

/-- Whatever a lattice claims at first, and however traversal and inference take
turns on it: where a traversal says that it is done, validation of any listed
node, with all that it claims, changes nothing. -/
theorem traversed_settled (loaded : d.tables.Loaded) (built : d.dataset = .ok data) {l : Lattice}
    (made : l.Built data.width) {i : Inference} (ready : i.Ready data)
    {pending : Std.TreeSet Counterexample} (real : ∀ c ∈ pending, c.Real data) {vs : List Scores}
    {s s' : Search} {all : Bool}
    (history : Search.History (d.setting data) ⟨⟨l, pending⟩, Traversal.start, i⟩ vs s)
    (done : s.traverse (d.setting data) all = some (true, s')) :
    ∀ level ≤ s'.lattice.maxLevel, ∀ e ∈ s'.lattice.atLevel level,
      (Validation.run data d.minSupport s'.lattice ⟨e.1, e.2.number, claimed e.2⟩).isUnsupported =
          false ∧
        (Validation.run data d.minSupport s'.lattice ⟨e.1, e.2.number, claimed e.2⟩).corrections =
          [] := by
  have hd : data.Sound := sound_dataset loaded built
  have natural : ∀ c t, data.Natural c t → Path.numbers data.width c t := fun c t natural =>
    ⟨data.natural_within c t natural, hd.natural_positive c t natural⟩
  have begun : Search.Workable (Path.numbers data.width) (d.setting data)
      ⟨⟨l, pending⟩, Traversal.start, i⟩ :=
    ⟨⟨made.formed, Search.checked_start _ l, real⟩, ready⟩
  have workable := history.workable hd natural begun
  obtain ⟨after, -, -, valid⟩ := workable.traverse hd natural done
  intro level _
  exact (valid rfl).silent hd after.poised.formed level

theorem traversed_settled_strangers :
    (Validation.run strangerData 0 (Lattice.new 2) ⟨[0, 0], 0, [0, 1]⟩).corrections ≠ [] ∧
    ∃ s' : Search,
      (Search.start strangerData).traverse (amongStrangers.setting strangerData) true =
        some (true, s') ∧
      ∀ level ≤ s'.lattice.maxLevel, ∀ e ∈ s'.lattice.atLevel level,
        (Validation.run strangerData 0 s'.lattice
          ⟨e.1, e.2.number, claimed e.2⟩).isUnsupported = false ∧
          (Validation.run strangerData 0 s'.lattice
            ⟨e.1, e.2.number, claimed e.2⟩).corrections = [] := by
  have corrected : (Validation.run strangerData 0 (Lattice.new 2) ⟨[0, 0], 0, [0, 1]⟩).corrections =
      [⟨0, 1, 0⟩, ⟨1, 1, 0⟩] := by with_unfolding_all rfl
  have hd := sound_dataset strangers_loaded build_strangers
  have begun := Search.start_workable (q := amongStrangers.setting strangerData) hd
  obtain ⟨answer, s', done, all⟩ := Search.traverse_answers hd begun true
  rw [all rfl] at done
  refine ⟨corrected ▸ List.cons_ne_nil _ _, s', done, ?_⟩
  exact traversed_settled strangers_loaded build_strangers .new (i := Inference.start)
    ⟨by simp [Inference.start], by simp [Inference.start]⟩
    (fun c hc => absurd hc Std.TreeSet.not_mem_emptyc) .start done

end MatchingDependencies.Discovery
