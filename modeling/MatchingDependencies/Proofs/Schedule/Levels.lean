import Mathlib.Data.Finset.Card
import MatchingDependencies.Proofs.Lattice.Built
import MatchingDependencies.Proofs.Schedule.Notes

/-!
# A level is handed out completely

The next batch consists of the claims that are due at no more general premise of
the level. They are not due afterwards, and nothing else changes. So batches of
an unchanged lattice bring every due claim once, the more general premise first,
and then the level ends.
-/

set_option autoImplicit false

namespace MatchingDependencies

open MatchingDependencies.Path (Allowed)
open MatchingDependencies.Batch (Requested)

namespace Lattice

def Lists (l : Lattice) (level : Nat) (premise : Scores) (node i : Nat) (bound : Score) :
    Prop :=
  ∃ n, (premise, n) ∈ l.atLevel level ∧ n.number = node ∧ n.bound i = bound ∧
    bound.isZero = false

section Lists

variable {ok : Allowed} {width level : Nat} {l : Lattice} {premise premise' : Scores}
  {node node' i i' : Nat} {bound bound' : Score}

theorem Lists.entry (hl : l.Formed ok width) (h : l.Lists level premise node i bound) :
    premise.IsVector width ∧ ∃ n, (premise.constraints, n) ∈ l.claims.entries ∧
      premise = premise.constraints.premise width ∧ n.number = node ∧ n.bound i = bound := by
  obtain ⟨n, listed, number, here, -⟩ := h
  obtain ⟨p, he, -, -, -, rfl⟩ := (hl.mem_atLevel_iff level premise n).mp listed
  have proper := hl.claims.mem_entries he
  rw [hl.ordered.constraints_premise he]
  exact ⟨proper.isVector hl.claims.positive hl.within, n, he, rfl, number, here⟩

theorem Lists.unique (hl : l.Formed ok width) (h : l.Lists level premise node i bound)
    (h' : l.Lists level premise' node' i' bound')
    (same : premise.constraints = premise'.constraints) : premise = premise' ∧ node = node' := by
  obtain ⟨-, n, he, eq, rfl, -⟩ := h.entry hl
  obtain ⟨-, n', he', eq', rfl, -⟩ := h'.entry hl
  rw [same] at he eq
  have found := (hl.claims.find?_eq_some_iff.mpr he).symm.trans
    (hl.claims.find?_eq_some_iff.mpr he')
  rw [eq, ← eq', Option.some.inj found]
  exact ⟨rfl, rfl⟩

end Lists

end Lattice

def Batch.Holds (candidates : List Candidate) (premise : Scores) (node i : Nat) : Prop :=
  ∃ c ∈ candidates, c.premise = premise ∧ c.node = node ∧ i ∈ c.indices

open MatchingDependencies.Batch (Holds)

namespace Schedule

def Due (s : Schedule) (l : Lattice) (premise : Scores) (node i : Nat) : Prop :=
  ∃ bound, l.Lists s.level premise node i bound ∧ s.isSettled node i bound = false

def Pending (notes : List Note) (l : Lattice) (level : Nat) (premise : Scores) (node i : Nat) :
    Prop :=
  ∃ bound, l.Lists level premise node i bound ∧
    ∀ b, Note.last notes node i = some b → b.same bound = false

/-- The next batch is what is due at most general premises, and the level ends if
nothing is due. -/
structure Next (due : Scores → Nat → Nat → Prop) (s : Schedule) (l : Lattice) : Prop where
  holds : ∀ premise node i, Holds (s.nextBatch l).1 premise node i ↔
    due premise node i ∧ ∀ g m, due g m i → ¬g.StrictlyGeneralizes premise
  once : (s.nextBatch l).1.Pairwise fun a b => a.node ≠ b.node
  asks : ∀ c ∈ (s.nextBatch l).1, c.indices ≠ []
  ends : (∀ premise node i, ¬due premise node i) → s.nextBatch l = ([], ⟨s.level+1, ∅⟩)
  stays : (∃ premise node i, due premise node i) →
    (s.nextBatch l).1 ≠ [] ∧ (s.nextBatch l).2.level = s.level

def after (l : Lattice) : Nat → Schedule → Schedule
  | 0, s => s
  | k+1, s => after l k (s.nextBatch l).2

def batchAt (l : Lattice) (s : Schedule) (k : Nat) : List Candidate :=
  ((after l k s).nextBatch l).1

/-- The next `k` batches bring the claims once each, those of more general
premises first, and then the level ends. -/
structure Drains (l : Lattice) (s : Schedule) (k : Nat) (claims : Scores → Nat → Nat → Prop) :
    Prop where
  some : ∀ j < k, batchAt l s j ≠ []
  level : ∀ j ≤ k, (after l j s).level = s.level
  ended : (after l k s).nextBatch l = ([], ⟨s.level+1, ∅⟩)
  all : ∀ premise node i, (∃ j < k, Holds (batchAt l s j) premise node i) ↔ claims premise node i
  once : ∀ j < k, ∀ j' < k, ∀ premise node i, Holds (batchAt l s j) premise node i →
    Holds (batchAt l s j') premise node i → j = j'
  order : ∀ j < k, ∀ j' < k, ∀ g m premise node i, Holds (batchAt l s j) g m i →
    Holds (batchAt l s j') premise node i → g.StrictlyGeneralizes premise → j < j'

variable {ok : Allowed} {width : Nat} {l : Lattice} {s : Schedule} {premise premise' : Scores}
  {node node' i i' : Nat} {c : Candidate}

theorem holds_offers_iff : Holds (s.offers l) premise node i ↔ Due s l premise node i := by
  constructor
  · rintro ⟨c, hc, rfl, rfl, hi⟩
    obtain ⟨⟨premise, n⟩, listed, rfl⟩ := List.mem_map.mp (List.mem_filter.mp hc).1
    obtain ⟨-, nonzero, unsettled⟩ := (mem_due_iff s n i).mp hi
    exact ⟨n.bound i, ⟨n, listed, rfl, rfl, nonzero⟩, unsettled⟩
  · rintro ⟨_, ⟨n, listed, rfl, rfl, nonzero⟩, unsettled⟩
    have size : i < n.bounds.size := by
      by_contra outside
      rw [n.bound_of_size_le (Nat.le_of_not_lt outside)] at nonzero
      nomatch nonzero
    have due : i ∈ s.due n := (mem_due_iff s n i).mpr ⟨size, nonzero, unsettled⟩
    refine ⟨⟨premise, n.number, s.due n⟩, ?_, rfl, rfl, due⟩
    exact List.mem_filter.mpr
      ⟨List.mem_map.mpr ⟨_, listed, rfl⟩, by simp [List.ne_nil_of_mem due]⟩

theorem requested_offers_iff (p : Path) (i : Nat) : Requested (s.offers l) p i ↔
    ∃ premise node, Due s l premise node i ∧ premise.constraints = p := by
  constructor
  · rintro ⟨c, hc, rfl, hi⟩
    exact ⟨c.premise, c.node, holds_offers_iff.mp ⟨c, hc, rfl, rfl, hi⟩, rfl⟩
  · rintro ⟨premise, node, due, rfl⟩
    obtain ⟨c, hc, rfl, rfl, hi⟩ := holds_offers_iff.mpr due
    exact ⟨c, hc, rfl, hi⟩

theorem level_nextBatch (some : (s.nextBatch l).1 ≠ []) :
    (s.nextBatch l).2.level = s.level := by
  rw [nextBatch_of_ne_nil some]
  exact (Agree.foldl (fun s c _ => agree_handOut l s (fun _ _ h => h))
    s : Agree (fun _ _ => False) s _).level

section Formed

variable (hl : l.Formed ok width)

include hl

theorem Due.isVector (h : Due s l premise node i) : premise.IsVector width := by
  obtain ⟨bound, listed, -⟩ := h
  exact (listed.entry hl).1

theorem Due.unique (h : Due s l premise node i) (h' : Due s l premise' node' i')
    (same : premise.constraints = premise'.constraints) : premise = premise' ∧ node = node' := by
  obtain ⟨bound, listed, -⟩ := h
  obtain ⟨bound', listed', -⟩ := h'
  exact listed.unique hl listed' same

theorem requested_nextBatch_iff (p : Path) (i : Nat) : Requested (s.nextBatch l).1 p i ↔
    Requested (s.offers l) p i ∧ ∀ g, Requested (s.offers l) g i → g.Generalizes p → g = p := by
  rw [nextBatch_fst, Batch.requested_selected_iff]
  exact (sound_accepted hl.ordered).asks_iff hl.claims.positive (offers_proper hl.ordered) p i

theorem exists_due_of_mem (hc : c ∈ (s.nextBatch l).1) : ∃ i, Due s l c.premise c.node i := by
  rw [nextBatch_fst] at hc
  obtain ⟨accept, -⟩ := (Batch.mem_selected_iff _ c).mp hc
  obtain ⟨o, ho, premise, node⟩ := (sound_accepted hl.ordered).offered c accept
  have some : o.indices ≠ [] := by simpa using (List.mem_filter.mp ho).2
  obtain ⟨i, hi⟩ := List.exists_mem_of_ne_nil _ some
  exact ⟨i, holds_offers_iff.mp ⟨o, ho, premise, node, hi⟩⟩

theorem holds_nextBatch_iff (premise : Scores) (node i : Nat) :
    Holds (s.nextBatch l).1 premise node i ↔ Due s l premise node i ∧
      ∀ g m, Due s l g m i → ¬g.StrictlyGeneralizes premise := by
  constructor
  · rintro ⟨c, hc, rfl, rfl, hi⟩
    obtain ⟨requested, least⟩ := (requested_nextBatch_iff hl _ i).mp ⟨c, hc, rfl, hi⟩
    obtain ⟨premise, node, due, same⟩ := (requested_offers_iff _ i).mp requested
    obtain ⟨j, here⟩ := exists_due_of_mem hl hc
    obtain ⟨rfl, rfl⟩ := due.unique hl here same
    constructor
    · exact due
    · intro g m general strict
      have path := (requested_offers_iff _ i).mpr ⟨g, m, general, rfl⟩
      rw [(general.isVector hl).strictlyGeneralizes_iff (due.isVector hl)] at strict
      exact strict.2 (least _ path strict.1)
  · rintro ⟨due, least⟩
    have requested : Requested (s.nextBatch l).1 premise.constraints i := by
      rw [requested_nextBatch_iff hl]
      constructor
      · exact (requested_offers_iff _ i).mpr ⟨premise, node, due, rfl⟩
      · intro p path general
        obtain ⟨g, m, due', rfl⟩ := (requested_offers_iff p i).mp path
        by_contra differ
        have strict := ((due'.isVector hl).strictlyGeneralizes_iff (due.isVector hl)).mpr
          ⟨general, differ⟩
        exact least g m due' strict
    obtain ⟨c, hc, same, hi⟩ := requested
    obtain ⟨j, here⟩ := exists_due_of_mem hl hc
    obtain ⟨premises, nodes⟩ := here.unique hl due same
    exact ⟨c, hc, premises, nodes, hi⟩

theorem nextBatch_ne_nil (due : Due s l premise node i) : (s.nextBatch l).1 ≠ [] := by
  obtain ⟨c, hc, -, -, hi⟩ := holds_offers_iff.mpr due
  have sound := sound_accepted (s := s) hl.ordered
  obtain ⟨g, j, asks⟩ := sound.nonempty hc (List.ne_nil_of_mem hi)
  obtain ⟨c', hc', -⟩ := (Batch.requested_selected_iff _ g j).mpr asks
  rw [nextBatch_fst]
  exact List.ne_nil_of_mem hc'

theorem next_due : Next (Due s l) s l := by
  constructor
  · exact holds_nextBatch_iff hl
  · have distinct := (sound_accepted (s := s) hl.ordered).distinct_selected
    rw [← nextBatch_fst] at distinct
    refine distinct.imp_of_mem fun {a b} ha hb differ same => differ ?_
    obtain ⟨i, _, listed, -⟩ := exists_due_of_mem hl ha
    obtain ⟨j, _, listed', -⟩ := exists_due_of_mem hl hb
    obtain ⟨-, n, he, -, number, -⟩ := listed.entry hl
    obtain ⟨-, n', he', -, number', -⟩ := listed'.entry hl
    exact congrArg Prod.fst
      (hl.claims.eq_of_number_eq he he' (number.trans (same.trans number'.symm)))
  · intro c hc
    rw [nextBatch_fst] at hc
    exact ((Batch.mem_selected_iff _ c).mp hc).2
  · intro none
    apply nextBatch_of_nil
    by_contra some
    obtain ⟨c, hc⟩ := List.exists_mem_of_ne_nil _ some
    obtain ⟨i, due⟩ := exists_due_of_mem hl hc
    exact none _ _ i due
  · rintro ⟨premise, node, i, due⟩
    have some := nextBatch_ne_nil hl due
    exact ⟨some, level_nextBatch some⟩

theorem isSettled_nextBatch_iff (some : (s.nextBatch l).1 ≠ []) {bound : Score}
    (listed : l.Lists s.level premise node i bound) :
    (s.nextBatch l).2.isSettled node i bound = true ↔
      Holds (s.nextBatch l).1 premise node i ∨ s.isSettled node i bound = true := by
  have entries : ∀ c ∈ (s.nextBatch l).1,
      ∃ n, (c.premise.constraints, n) ∈ l.claims.entries ∧ c.node = n.number := by
    intro c hc
    obtain ⟨j, _, here, -⟩ := exists_due_of_mem hl hc
    obtain ⟨-, n, he, -, number, -⟩ := here.entry hl
    exact ⟨n, he, number.symm⟩
  have holds : (∃ c ∈ (s.nextBatch l).1, c.premise.constraints = premise.constraints ∧
      i ∈ c.indices) ↔ Holds (s.nextBatch l).1 premise node i := by
    constructor
    · rintro ⟨c, hc, same, hi⟩
      obtain ⟨j, _, here, -⟩ := exists_due_of_mem hl hc
      obtain ⟨premises, nodes⟩ := here.unique hl listed same
      exact ⟨c, hc, premises, nodes, hi⟩
    · rintro ⟨c, hc, rfl, -, hi⟩
      exact ⟨c, hc, rfl, hi⟩
  obtain ⟨-, n, he, -, rfl, rfl⟩ := listed.entry hl
  rw [nextBatch_of_ne_nil some, isSettled_foldl_handOut_iff hl entries he, holds]

theorem due_nextBatch_iff (some : (s.nextBatch l).1 ≠ []) (premise : Scores) (node i : Nat) :
    Due (s.nextBatch l).2 l premise node i ↔
      Due s l premise node i ∧ ¬Holds (s.nextBatch l).1 premise node i := by
  rw [Due, Due, level_nextBatch some, ← exists_and_right]
  apply exists_congr
  intro bound
  rw [and_assoc]
  apply and_congr_right
  intro listed
  rw [← Bool.not_eq_true, ← Bool.not_eq_true, isSettled_nextBatch_iff hl some listed, not_or,
    and_comm]

def waiting (s : Schedule) (l : Lattice) : Finset (Scores × Nat × Nat) :=
  ((s.offers l).flatMap fun c => c.indices.map fun i => (c.premise, c.node, i)).toFinset

omit hl in
theorem mem_waiting_iff : (premise, node, i) ∈ waiting s l ↔ Due s l premise node i := by
  simp only [waiting, List.mem_toFinset, List.mem_flatMap, List.mem_map, Prod.mk.injEq,
    ← holds_offers_iff, Holds]
  constructor
  · rintro ⟨c, hc, j, hj, rfl, rfl, rfl⟩
    exact ⟨c, hc, rfl, rfl, hj⟩
  · rintro ⟨c, hc, rfl, rfl, hi⟩
    exact ⟨c, hc, i, hi, rfl, rfl, rfl⟩

theorem waiting_nextBatch_lt (some : (s.nextBatch l).1 ≠ []) :
    (waiting (s.nextBatch l).2 l).card < (waiting s l).card := by
  have subset : waiting (s.nextBatch l).2 l ⊆ waiting s l := by
    rintro ⟨premise, node, i⟩ mem
    rw [mem_waiting_iff, due_nextBatch_iff hl some] at mem
    exact mem_waiting_iff.mpr mem.1
  obtain ⟨c, hc⟩ := List.exists_mem_of_ne_nil _ some
  obtain ⟨i, hi⟩ := List.exists_mem_of_ne_nil _ ((next_due hl).asks c hc)
  have holds : Holds (s.nextBatch l).1 c.premise c.node i := ⟨c, hc, rfl, rfl, hi⟩
  have due := ((holds_nextBatch_iff hl _ _ i).mp holds).1
  apply Finset.card_lt_card
  rw [Finset.ssubset_iff_of_subset subset]
  refine ⟨(c.premise, c.node, i), mem_waiting_iff.mpr due, fun mem => ?_⟩
  rw [mem_waiting_iff, due_nextBatch_iff hl some] at mem
  exact mem.2 holds

/-! ## Batches of an unchanged lattice -/

section Cons

variable {k : Nat} (some : (s.nextBatch l).1 ≠ [])
  (h : Drains l (s.nextBatch l).2 k (Due (s.nextBatch l).2 l))

include some h

theorem Drains.later {j : Nat} (hj : j < k) (holds : Holds (batchAt l s (j+1)) premise node i) :
    Due s l premise node i ∧ ¬Holds (batchAt l s 0) premise node i :=
  (due_nextBatch_iff hl some premise node i).mp ((h.all premise node i).mp ⟨j, hj, holds⟩)

theorem Drains.all_cons (premise : Scores) (node i : Nat) :
    (∃ j < k+1, Holds (batchAt l s j) premise node i) ↔ Due s l premise node i := by
  constructor
  · rintro ⟨j, hj, holds⟩
    cases j with
    | zero => exact ((holds_nextBatch_iff hl premise node i).mp holds).1
    | succ j => exact (h.later hl some (Nat.lt_of_succ_lt_succ hj) holds).1
  · intro here
    by_cases holds : Holds (s.nextBatch l).1 premise node i
    · exact ⟨0, Nat.succ_pos k, holds⟩
    · have later := (due_nextBatch_iff hl some premise node i).mpr ⟨here, holds⟩
      obtain ⟨j, hj, holds⟩ := (h.all premise node i).mpr later
      exact ⟨j+1, Nat.succ_lt_succ hj, holds⟩

theorem Drains.once_cons {j j' : Nat} (hj : j < k+1) (hj' : j' < k+1)
    (holds : Holds (batchAt l s j) premise node i)
    (holds' : Holds (batchAt l s j') premise node i) : j = j' := by
  cases j with
  | zero =>
    cases j' with
    | zero => rfl
    | succ j' => exact absurd holds (h.later hl some (Nat.lt_of_succ_lt_succ hj') holds').2
  | succ j =>
    cases j' with
    | zero => exact absurd holds' (h.later hl some (Nat.lt_of_succ_lt_succ hj) holds).2
    | succ j' =>
      exact congrArg Nat.succ (h.once j (Nat.lt_of_succ_lt_succ hj) j'
        (Nat.lt_of_succ_lt_succ hj') premise node i holds holds')

theorem Drains.order_cons {j j' : Nat} {g : Scores} {m : Nat} (hj : j < k+1) (hj' : j' < k+1)
    (general : Holds (batchAt l s j) g m i) (holds : Holds (batchAt l s j') premise node i)
    (strict : g.StrictlyGeneralizes premise) : j < j' := by
  have due := (h.all_cons hl some g m i).mp ⟨j, hj, general⟩
  cases j' with
  | zero =>
    -- A claim of the first batch has no generalization that is due, then or later.
    exact absurd strict (((holds_nextBatch_iff hl premise node i).mp holds).2 g m due)
  | succ j' =>
    cases j with
    | zero => exact Nat.succ_pos j'
    | succ j =>
      exact Nat.succ_lt_succ (h.order j (Nat.lt_of_succ_lt_succ hj) j'
        (Nat.lt_of_succ_lt_succ hj') g m premise node i general holds strict)

theorem Drains.cons : Drains l s (k+1) (Due s l) := by
  have level := level_nextBatch some
  constructor
  · intro j hj
    cases j with
    | zero => exact some
    | succ j => exact h.some j (Nat.lt_of_succ_lt_succ hj)
  · intro j hj
    cases j with
    | zero => rfl
    | succ j => exact (h.level j (Nat.le_of_succ_le_succ hj)).trans level
  · rw [after, h.ended, level]
  · exact h.all_cons hl some
  · exact fun j hj j' hj' premise node i => h.once_cons hl some hj hj'
  · exact fun j hj j' hj' g m premise node i => h.order_cons hl some hj hj'

end Cons

theorem exists_drains (s : Schedule) : ∃ k, Drains l s k (Due s l) := by
  induction count : (waiting s l).card using Nat.strong_induction_on generalizing s with
  | h n ih =>
    by_cases none : (s.nextBatch l).1 = []
    · have nothing : ∀ premise node i, ¬Due s l premise node i := fun _ _ _ due =>
        nextBatch_ne_nil hl due none
      refine ⟨0, nofun, fun j hj => ?_, nextBatch_of_nil none, ?_, nofun, nofun⟩
      · rw [Nat.le_zero.mp hj]
        rfl
      · intro premise node i
        exact iff_of_false (by simp) (nothing premise node i)
    · obtain ⟨k, drains⟩ := ih _ (count ▸ waiting_nextBatch_lt hl none) (s.nextBatch l).2 rfl
      exact ⟨k+1, drains.cons hl none⟩

end Formed

theorem Told.due_iff {notes : List Note} (told : Told notes s) (l : Lattice) (premise : Scores)
    (node i : Nat) : Due s l premise node i ↔ Pending notes l s.level premise node i := by
  apply exists_congr
  intro bound
  apply and_congr_right
  intro _
  rw [told.remembers.last]
  cases Note.last notes node i <;> simp

/-- The next batch is what is pending at most general premises, and without
changes of the lattice everything is handed out once and in order before the
level ends. -/
theorem level_handed_out (built : Lattice.Built width l) {notes : List Note}
    (told : Told notes s) :
    Next (Pending notes l s.level) s l ∧
    ((∀ node i, Note.last notes node i = none) →
      ∃ k, Drains l s k fun premise node i =>
        ∃ bound, l.Lists s.level premise node i bound) := by
  have pending : Due s l = Pending notes l s.level := by
    funext premise node i
    exact propext (told.due_iff l premise node i)
  constructor
  · rw [← pending]
    exact next_due built.formed
  · intro empty
    -- Without notes everything that is claimed is pending.
    have all : Due s l = fun premise node i => ∃ bound, l.Lists s.level premise node i bound := by
      rw [pending]
      funext premise node i
      simp [Pending, empty]
    rw [← all]
    exact exists_drains built.formed s

/-! ## Two premises of one level -/

def half : Score := ⟨0x3FE0000000000000⟩

def quarter : Score := ⟨0x3FD0000000000000⟩

/-- Both premises of the first level demand something of the first column, and the
more specific one claims more of the second column. -/
def nested : Lattice :=
  let none := ((Lattice.new 2).setBound [] 0 0).setBound [] 1 0
  let general := (none.addIfMinimal (Scores.constraints [half, 0]) half 1).2
  (general.addIfMinimal (Scores.constraints [1, 0]) 1 1).2

def weakened : Lattice := nested.setBound (Scores.constraints [half, 0]) 1 quarter

theorem built_nested : Lattice.Built 2 nested := by
  have none : Lattice.Built 2 (((Lattice.new 2).setBound [] 0 0).setBound [] 1 0) :=
    (Lattice.Built.new.setBound [0, 0] 0 (by decide)).setBound [0, 0] 1 (by decide)
  have general := none.add rfl (by decide : Scores.Numbered [half, 0])
    (by decide : half.inUnit = true) Nat.one_lt_two
  exact general.add rfl (by decide : Scores.Numbered [1, 0]) (by decide : Score.inUnit 1 = true)
    Nat.one_lt_two

theorem built_weakened : Lattice.Built 2 weakened := built_nested.setBound [half, 0] 1 (by decide)

theorem due_cleared (level : Nat) (n : Node) : due ⟨level, ∅⟩ n =
    (List.range n.bounds.size).filter fun i => !(n.bound i).isZero := by
  simp [due, isSettled]

theorem nextBatch_start : start.nextBatch nested = ([], ⟨1, ∅⟩) := by
  apply nextBatch_of_nil
  rw [nextBatch_fst, accepted, offers, start]
  simp only [due_cleared]
  with_unfolding_all rfl

theorem nextBatch_nested : (nextBatch ⟨1, ∅⟩ nested).1 = [⟨[half, 0], 1, [1]⟩] := by
  rw [nextBatch_fst, accepted, offers]
  simp only [due_cleared]
  with_unfolding_all rfl

theorem atLevel_weakened : weakened.atLevel 1 =
    [([half, 0], ⟨1, #[0, quarter]⟩), ([1, 0], ⟨2, #[0, 1]⟩)] := by
  with_unfolding_all rfl

/-- The more general claim was handed out and then weakened, so it is handed out
again. The other one, which was never handed out, waits for the batch after it. -/
theorem level_handed_out_again :
    let notes : List Note := [.handedOut 1 1 half, .forgotten]
    let s := (nextBatch ⟨1, ∅⟩ nested).2
    Lattice.Built 2 weakened ∧ Told notes s ∧
    Pending notes weakened 1 [half, 0] 1 1 ∧ Pending notes weakened 1 [1, 0] 2 1 ∧
    Next (Pending notes weakened 1) s weakened ∧
    Holds (s.nextBatch weakened).1 [half, 0] 1 1 ∧ ¬Holds (s.nextBatch weakened).1 [1, 0] 2 1 ∧
    ∃ k, Drains weakened ⟨1, ∅⟩ k fun premise node i =>
      ∃ bound, weakened.Lists 1 premise node i bound := by
  intro notes s
  have ended : Told [.forgotten] ⟨1, ∅⟩ := by
    have told := Told.start.endLevel nested (congrArg Prod.fst nextBatch_start)
    rwa [nextBatch_start] at told
  have told : Told notes s := by
    have some : (nextBatch ⟨1, ∅⟩ nested).1 ≠ [] := nextBatch_nested ▸ List.cons_ne_nil _ _
    have told := ended.handOut nested some
    rwa [nextBatch_nested] at told
  have level : s.level = 1 := level_nextBatch (nextBatch_nested ▸ List.cons_ne_nil _ _)
  have general : Pending notes weakened 1 [half, 0] 1 1 := by
    refine ⟨quarter, ⟨_, atLevel_weakened ▸ List.mem_cons_self, rfl, rfl, rfl⟩, ?_⟩
    rintro b eq
    obtain rfl := Option.some.inj eq
    decide
  have specific : Pending notes weakened 1 [1, 0] 2 1 :=
    ⟨1, ⟨_, atLevel_weakened ▸ List.mem_cons_of_mem _ List.mem_cons_self, rfl, rfl, rfl⟩, nofun⟩
  have next := (level_handed_out built_weakened told).1
  rw [level] at next
  have strict : Scores.StrictlyGeneralizes [half, 0] [1, 0] := ⟨by decide, by decide⟩
  have minimal : ∀ g m, Pending notes weakened 1 g m 1 → ¬g.StrictlyGeneralizes [half, 0] := by
    rintro g m ⟨bound, ⟨n, listed, -⟩, -⟩ ⟨generalizes, differ⟩
    rw [atLevel_weakened, List.mem_cons, List.mem_singleton, Prod.mk.injEq, Prod.mk.injEq] at listed
    rcases listed with ⟨rfl, -⟩ | ⟨rfl, -⟩
    · exact absurd differ (by decide)
    · exact absurd generalizes (by decide)
  refine ⟨built_weakened, told, general, specific, next, ?_, ?_, ?_⟩
  · exact (next.holds _ _ _).mpr ⟨general, minimal⟩
  · intro holds
    exact ((next.holds _ _ _).mp holds).2 _ _ general strict
  · exact (level_handed_out built_weakened ended).2 fun _ _ => rfl

end Schedule

end MatchingDependencies
