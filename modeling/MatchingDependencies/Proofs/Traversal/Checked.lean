import MatchingDependencies.Proofs.Schedule.Memo
import MatchingDependencies.Proofs.Traversal.BatchReworking

/-!
# Which claims have been validated

A claim is valid if validation would leave it alone. Below the current level,
and on it where the schedule remembers the bound, every claim is valid, unless
its premise was dropped or a change on its level or below was noted. So when
all levels are passed and no change is noted, every claim that is listed is
valid.
-/

set_option autoImplicit false

namespace MatchingDependencies.Traversal

open MatchingDependencies.Path (Allowed)
open MatchingDependencies.Lattice (Tracked)

variable {ok : Allowed} {q : Setting} {l l' : Lattice} {s s' : Schedule} {p : Path} {i : Nat}

/-- All satisfying pairs reach the bound, they are enough, and neither the premise
itself nor a generalization guarantees as much. -/
structure Valid (q : Setting) (l : Lattice) (p : Path) (i : Nat) : Prop where
  supported : q.Supports p
  above : p.demand i < (l.bound p i).height
  holds : ∀ v, q.data.Shows p v → (l.bound p i).height ≤ v.demand i
  least : ∀ g, g.Generalizes p → g ≠ p → (l.bound g i).height < (l.bound p i).height

/-- A claim that may be looked at is valid unless it is to be looked at again. -/
def Sure (q : Setting) (l : Lattice) (p : Path) (i : Nat) : Prop :=
  l.Noted p.length ∨ l.Dropped p ∨ Valid q l p i

structure Checked (q : Setting) (s : Schedule) (l : Lattice) : Prop where
  below : ∀ p i, 0 < (l.bound p i).height → p.length < s.level → Sure q l p i
  here : ∀ p n i, l.find? p = some n → 0 < (n.bound i).height → p.length = s.level →
    s.isSettled n.number i (n.bound i) = true → Sure q l p i

def AllValid (q : Setting) (l : Lattice) : Prop :=
  ∀ p i, 0 < (l.bound p i).height → l.Dropped p ∨ Valid q l p i

theorem Valid.of_le (h : Valid q l p i) (same : l'.bound p i = l.bound p i)
    (le : ∀ g, g.Generalizes p → g ≠ p → (l'.bound g i).height ≤ (l.bound g i).height) :
    Valid q l' p i := by
  refine ⟨h.supported, ?_, fun v shown => ?_, fun g general differ => ?_⟩
  · rw [same]
    exact h.above
  · rw [same]
    exact h.holds v shown
  · rw [same]
    exact Int.lt_of_le_of_lt (le g general differ) (h.least g general differ)

/-- Where no change was noted up to the level of a premise, no generalization of
it was raised, provided that raises are noted. -/
theorem le_of_not_noted (hl : l.Formed ok q.data.width) (hl' : l'.Formed ok q.data.width)
    (hp : p.Proper ok 0)
    (raised : ∀ g i, (l.bound g i).height < (l'.bound g i).height → l'.Noted g.length)
    (quiet : ¬l'.Noted p.length) (g : Path) (general : g.Generalizes p) (i : Nat) :
    (l'.bound g i).height ≤ (l.bound g i).height := by
  refine Int.not_lt.mp fun rise => quiet ?_
  have positive := Int.lt_of_le_of_lt (hl.bound_nonneg g i) rise
  have proper := (hl'.stored_of_bound positive).1
  exact (raised g i rise).mono (general.length_le hl.claims.positive proper hp)

theorem exists_node (hl : l.Formed ok q.data.width) (positive : 0 < (l.bound p i).height) :
    ∃ n, l.find? p = some n ∧ n.bound i = l.bound p i := by
  obtain ⟨n, he, eq, -⟩ := hl.claims.exists_of_bound positive
  exact ⟨n, hl.claims.find?_eq_some_iff.mpr he, eq⟩

theorem sure_of_sure (hl : l.Formed ok q.data.width) (hl' : l'.Formed ok q.data.width)
    (marks : ∀ m, l.unsupported.Marked m → l'.unsupported.Marked m)
    (noted : ∀ k, l.Noted k → l'.Noted k)
    (raised : ∀ g i, (l.bound g i).height < (l'.bound g i).height → l'.Noted g.length)
    (positive : 0 < (l'.bound p i).height)
    (same : ¬l'.Noted p.length → ¬l'.Dropped p → l'.bound p i = l.bound p i)
    (old : l'.bound p i = l.bound p i → Sure q l p i) : Sure q l' p i := by
  by_cases quiet : l'.Noted p.length
  · exact .inl quiet
  · by_cases dropped : l'.Dropped p
    · exact .inr (.inl dropped)
    · have same := same quiet dropped
      have proper := (hl'.stored_of_bound positive).1
      rcases old same with before | ⟨m, marked, general⟩ | valid
      · exact absurd (noted _ before) quiet
      · exact absurd ⟨m, marks m marked, general⟩ dropped
      · exact .inr (.inr (valid.of_le same fun g general _ =>
          le_of_not_noted hl hl' proper raised quiet g general i))

/-! ## Changes from outside -/

theorem Checked.tracked (h : Checked q s l) (hl : l.Formed ok q.data.width)
    (hl' : l'.Formed ok q.data.width)
    (tracked : Tracked l l') : Checked q s l' := by
  have raised : ∀ g i, (l.bound g i).height < (l'.bound g i).height → l'.Noted g.length := by
    intro g i rise
    exact tracked.changed g i fun same => absurd rise (by rw [same]; exact Int.lt_irrefl _)
  have next : ∀ p i, 0 < (l'.bound p i).height → (l'.bound p i = l.bound p i → Sure q l p i) →
      Sure q l' p i := fun p i positive =>
    sure_of_sure hl hl' (fun m marked => tracked.unsupported ▸ marked) tracked.noted raised positive
      fun quiet _ => Classical.byContradiction fun differ => quiet (tracked.changed p i differ)
  constructor
  · exact fun p i positive level =>
      next p i positive fun same => h.below p i (same ▸ positive) level
  · intro p n' i found positive level settled
    have bound' : l'.bound p i = n'.bound i := ClaimLattice.bound_of_find? found i
    rw [← bound'] at positive settled
    apply next p i positive
    intro same
    obtain ⟨n, stored, bound⟩ := exists_node hl (same ▸ positive)
    obtain ⟨m, found', number⟩ := tracked.keeps p n stored
    have eq : n' = m := Option.some.inj (found.symm.trans found')
    rw [eq, number, same, ← bound] at settled
    refine h.here p n i stored ?_ level settled
    rw [bound, ← same]
    exact positive

/-! ## Going back and going on -/

theorem Checked.rewound (h : Checked q s l) :
    Checked q (match l.takeLowestChanged.1 with
      | some level => s.rewind level
      | none => s) l.takeLowestChanged.2 := by
  have sure : ∀ p i, Sure q l p i → ¬l.Noted p.length → Sure q l.takeLowestChanged.2 p i := by
    intro p i old quiet
    rcases old with noted | dropped | valid
    · exact absurd noted quiet
    · exact .inr (.inl dropped)
    · exact .inr (.inr (valid.of_le rfl fun g _ _ => Int.le_refl _))
  have quiet : ∀ k, (∀ m, l.claims.lowestChanged = some m → k < m) → ¬l.Noted k := by
    rintro k above ⟨m, lowest, le⟩
    exact absurd (above m lowest) (Nat.not_lt.mpr le)
  change Checked q (match l.claims.lowestChanged with
    | some level => s.rewind level
    | none => s) l.takeLowestChanged.2
  cases lowest : l.claims.lowestChanged with
  | none =>
    have none : ∀ k, ¬l.Noted k := fun k => quiet k fun m some => nomatch lowest.symm.trans some
    exact ⟨fun p i positive level => sure p i (h.below p i positive level) (none _),
      fun p n i found positive level settled =>
        sure p i (h.here p n i found positive level settled) (none _)⟩
  | some m =>
    -- Below the lowest change nothing was noted.
    have above : ∀ k, k < m → ¬l.Noted k := fun k lt => quiet k fun m' some =>
      Option.some.inj (lowest.symm.trans some) ▸ lt
    dsimp only
    rw [Schedule.rewind]
    split
    · next le =>
      refine ⟨fun p i positive level => ?_, fun p n i _ _ _ settled => ?_⟩
      · change p.length < m at level
        exact sure p i (h.below p i positive (by omega)) (above _ level)
      · simp [Schedule.isSettled] at settled
    · exact ⟨fun p i positive level => sure p i (h.below p i positive level) (above _ (by omega)),
        fun p n i found positive level settled =>
          sure p i (h.here p n i found positive level settled) (above _ (by omega))⟩

/-- When all levels are passed, every claim is valid. -/
theorem Checked.allValid (h : Checked q s l) (hl : l.Formed ok q.data.width)
    (quiet : ∀ k, ¬l.Noted k) (passed : s.levelsLeft l = false) : AllValid q l := by
  intro p i positive
  have level := hl.length_le_maxLevel positive
  rw [Schedule.levelsLeft, decide_eq_false_iff_not] at passed
  rcases h.below p i positive (by omega) with noted | sure
  · exact absurd noted (quiet _)
  · exact sure

theorem Checked.ended (h : Checked q s l) (hl : l.Formed ok q.data.width)
    (settled : ∀ p n i, (p, n) ∈ l.claims.entries → p.length = s.level → ¬l.Dropped p →
      0 < (n.bound i).height → s.isSettled n.number i (n.bound i) = true) :
    Checked q ⟨s.level+1, ∅⟩ l := by
  refine ⟨fun p i positive level => ?_, fun p n i _ _ _ settled => ?_⟩
  · rcases Nat.lt_or_eq_of_le (Nat.le_of_lt_succ level) with lt | eq
    · exact h.below p i positive lt
    · by_cases dropped : l.Dropped p
      · exact .inr (.inl dropped)
      · obtain ⟨n, found, bound⟩ := exists_node hl positive
        rw [← bound] at positive
        exact h.here p n i found positive eq
          (settled p n i (hl.claims.find?_eq_some_iff.mp found) eq dropped positive)
  · simp [Schedule.isSettled] at settled

/-! ## Validating a batch -/

theorem Live.validated (hd : q.data.Sound) (hl : l.Formed ok q.data.width) {c : Candidate}
    (live : Live ok q.data.width l l c) (asks : c.indices ≠ []) :
    Validated q l (Validation.run q.data q.minSupport l) c :=
  ⟨Validation.sound_run hd hl.claims live.length_premise (live.premise_numbered hl)
    fun i hi => (hl.stored_of_bound (live.claimed i hi)).2.2, Validation.changes_run _ _ _ _, asks⟩

section Batch

variable {batch : List Candidate} (hl : l.Formed ok q.data.width) (chosen : s.Chosen q l batch)

theorem apart_of_chosen (chosen : s.Chosen q l batch) : Apart batch :=
  ⟨chosen.distinct, chosen.antichain⟩

include hl chosen

theorem live_of_chosen {c : Candidate} (hc : c ∈ batch) : Live ok q.data.width l l c := by
  obtain ⟨n, he, -, premise, -, -, due⟩ := chosen.listed c hc
  have found : l.find? c.path = some n := hl.claims.find?_eq_some_iff.mpr he
  refine ⟨hl.claims.mem_entries he, premise, by rw [found]; rfl, fun i hi => ?_, fun _ _ => rfl⟩
  have nonzero := ((Schedule.mem_due_iff s n i).mp (due i hi)).2.1
  have bound : l.bound c.path i = n.bound i := ClaimLattice.bound_of_find? found i
  have nonneg := hl.bound_nonneg c.path i
  rw [← bound, ← Bool.not_eq_true, Score.isZero_iff] at nonzero
  omega

variable (hd : q.data.Sound)

include hd in
theorem validated_of_chosen {c : Candidate} (hc : c ∈ batch) :
    Validated q l (Validation.run q.data q.minSupport l) c :=
  (live_of_chosen hl chosen hc).validated hd hl (chosen.asks c hc)

variable (reworked : Reworked ok q batch l l')

include reworked

theorem sure_of_settled {c : Candidate} (hc : c ∈ batch) (settled : SettledAt q l l' c)
    (hi : i ∈ c.indices) (positive : 0 < (l'.bound c.path i).height) : Sure q l' c.path i := by
  have live := live_of_chosen hl chosen hc
  by_cases quiet : l'.Noted c.path.length
  · exact .inl quiet
  · by_cases supported : q.Supports c.path
    · rcases settled.2 i hi supported with ⟨zero, -⟩ | ⟨above, -, all, -⟩
      · omega
      · have demand : c.path.demand i = c.premise.demand i := Scores.demand_constraints c.premise i
        rw [Validation.floorHeight] at above
        refine .inr (.inr ⟨supported, by omega, fun v shown => all _ ⟨v, shown, rfl⟩,
          fun g general differ => ?_⟩)
        have raised := le_of_not_noted hl reworked.formed live.proper
          (fun g i rise => (reworked.raised rise).1) quiet g general i
        have inherited : (l.bound g i).height ≤ ((l.inheritedBounds c.premise).score i).height :=
          hl.claims.bound_le_inherited (live.premise_numbered hl)
            ((Scores.generalizes_constraints_iff ..).mp general) differ i
        omega
    · exact .inr (.inl (settled.1 supported))

theorem Checked.validated (h : Checked q s l) (settled : ∀ c ∈ batch, SettledAt q l l' c)
    (agree : Schedule.Agree (fun n i => ¬∃ c ∈ batch, c.node = n ∧ i ∈ c.indices) s s') :
    Checked q s' l' := by
  have next : ∀ p i, 0 < (l'.bound p i).height → (¬∃ c ∈ batch, c.path = p ∧ i ∈ c.indices) →
      (l'.bound p i = l.bound p i → Sure q l p i) → Sure q l' p i := by
    intro p i positive other
    refine sure_of_sure hl reworked.formed reworked.marks reworked.noted
      (fun g i rise => (reworked.raised rise).1) positive
      fun quiet kept => Classical.byContradiction fun differ => ?_
    rcases reworked.changed differ with noted | dropped | place
    · exact quiet noted
    · exact kept dropped
    · exact other place
  constructor
  · intro p i positive level
    rw [agree.level] at level
    refine next p i positive ?_ fun same => h.below p i (same ▸ positive) level
    rintro ⟨c, hc, rfl, -⟩
    obtain ⟨n, -, -, -, here, -⟩ := chosen.listed c hc
    change c.path.length = _ at here
    omega
  · intro p n' i found positive level remembered
    have bound' : l'.bound p i = n'.bound i := ClaimLattice.bound_of_find? found i
    rw [← bound'] at positive remembered
    -- What the batch asks for is settled, and of other claims nothing else is remembered.
    by_cases asked : ∃ c ∈ batch, c.path = p ∧ i ∈ c.indices
    · obtain ⟨c, hc, rfl, hi⟩ := asked
      exact sure_of_settled hl chosen reworked hc (settled c hc) hi positive
    · apply next p i positive asked
      intro same
      obtain ⟨n, stored, bound⟩ := exists_node hl (same ▸ positive)
      obtain ⟨m, found', number⟩ := reworked.keeps p n stored
      have eq : n' = m := Option.some.inj (found.symm.trans found')
      have unasked : ¬∃ c ∈ batch, c.node = n.number ∧ i ∈ c.indices := by
        rintro ⟨c, hc, node, hi⟩
        obtain ⟨k, he, number', -⟩ := chosen.listed c hc
        have entry := hl.claims.eq_of_number_eq he (hl.claims.find?_eq_some_iff.mp stored)
          (number'.symm.trans node)
        exact asked ⟨c, hc, congrArg Prod.fst entry, hi⟩
      rw [eq, number, same, ← bound, agree.settled _ _ unasked] at remembered
      refine h.here p n i stored ?_ (level.trans agree.level) remembered
      rw [bound, ← same]
      exact positive

end Batch

end MatchingDependencies.Traversal
