import MatchingDependencies.Proofs.Lattice.Formed
import MatchingDependencies.Proofs.Schedule.Slots
import MatchingDependencies.Proofs.Setting
import MatchingDependencies.Schedule

/-!
# What a schedule hands out

A claim is due on the current level unless the schedule remembers its bound for
its node. Handing out a batch and settling its bounds changes what is
remembered of the claims in the batch only.
-/

set_option autoImplicit false

namespace MatchingDependencies

open MatchingDependencies.Path (Allowed)

namespace Lattice

variable {ok : Allowed} {width : Nat} {l : Lattice}

theorem Formed.mem_atLevel_iff (hl : l.Formed ok width) (level : Nat) (premise : Scores)
    (n : Node) : (premise, n) ∈ l.atLevel level ↔ ∃ p, (p, n) ∈ l.claims.entries ∧
      p.length = level ∧ n.claimsAny = true ∧ ¬l.Dropped p ∧ premise = p.premise width := by
  have same : ∀ p n, (p, n) ∈ l.claims.entries →
      (l.isUnsupported (Scores.constraints (p.premise width)) = true ↔ l.Dropped p) := by
    intro p n he
    rw [hl.ordered.constraints_premise he]
    exact hl.isUnsupported_iff (hl.claims.mem_entries he)
  rw [Lattice.atLevel, List.mem_filter, hl.ordered.atLevel_claims, List.mem_map]
  constructor
  · rintro ⟨⟨⟨p, m⟩, he, eq⟩, supported⟩
    obtain ⟨rfl, rfl⟩ := Prod.mk.inj eq
    obtain ⟨he, test⟩ := List.mem_filter.mp he
    rw [Bool.and_eq_true, decide_eq_true_iff] at test
    refine ⟨p, he, test.1, test.2, fun dropped => ?_, rfl⟩
    dsimp only at supported
    rw [(same p m he).mpr dropped] at supported
    exact absurd supported (by simp)
  · rintro ⟨p, he, level, claims, supported, rfl⟩
    refine ⟨⟨(p, n), List.mem_filter.mpr ⟨he, ?_⟩, rfl⟩, ?_⟩
    · rw [Bool.and_eq_true, decide_eq_true_iff]
      exact ⟨level, claims⟩
    · rw [Bool.not_eq_true', ← Bool.not_eq_true]
      exact mt (same p n he).mp supported

end Lattice

namespace Schedule

variable {ok : Allowed} {width : Nat} {q : Setting} {l : Lattice} {s : Schedule}
  {batch : List Candidate}

/-! ## Remembering bounds -/

theorem isSettled_remember (s : Schedule) (node index : Nat) (bound : Score) (n i : Nat)
    (b : Score) : (s.remember node index bound).isSettled n i b =
      if n = node ∧ i = index then bound.same b else s.isSettled n i b := by
  rw [isSettled, isSettled, remember]
  dsimp only
  rw [Std.HashMap.getElem?_insert]
  by_cases sameNode : n = node
  · subst sameNode
    simp only [BEq.rfl, if_true, Std.HashMap.getElem?_insert, true_and]
    by_cases sameIndex : i = index
    · simp [sameIndex]
    · simp only [sameIndex, if_false, beq_iff_eq, Ne.symm sameIndex]
      rw [Std.HashMap.getD_eq_getD_getElem?]
      cases s.handedOut[n]? <;> simp
  · simp [sameNode, Ne.symm sameNode]

structure Agree (claims : Nat → Nat → Prop) (s s' : Schedule) : Prop where
  level : s'.level = s.level
  settled : ∀ n i, claims n i → ∀ b, s'.isSettled n i b = s.isSettled n i b

theorem Agree.refl (claims : Nat → Nat → Prop) (s : Schedule) : Agree claims s s :=
  ⟨rfl, fun _ _ _ _ => rfl⟩

theorem Agree.trans {claims : Nat → Nat → Prop} {s' s'' : Schedule} (h : Agree claims s s')
    (h' : Agree claims s' s'') : Agree claims s s'' :=
  ⟨h'.level.trans h.level, fun n i here b =>
    (h'.settled n i here b).trans (h.settled n i here b)⟩

theorem Agree.foldl {α : Type} {claims : Nat → Nat → Prop} {step : Schedule → α → Schedule}
    {as : List α} (each : ∀ s, ∀ a ∈ as, Agree claims s (step s a)) (s : Schedule) :
    Agree claims s (as.foldl step s) := by
  induction as generalizing s with
  | nil => exact .refl claims s
  | cons a as ih =>
    exact (each s a List.mem_cons_self).trans
      (ih (fun s b hb => each s b (List.mem_cons_of_mem _ hb)) (step s a))

theorem agree_remember {claims : Nat → Nat → Prop} (s : Schedule) {node index : Nat}
    (bound : Score) (other : ¬claims node index) :
    Agree claims s (s.remember node index bound) := by
  refine ⟨rfl, fun n i here b => ?_⟩
  rw [isSettled_remember, if_neg]
  rintro ⟨rfl, rfl⟩
  exact other here

theorem agree_handOut {claims : Nat → Nat → Prop} (l : Lattice) (s : Schedule) {c : Candidate}
    (other : ∀ i ∈ c.indices, ¬claims c.node i) : Agree claims s (handOut l s c) :=
  Agree.foldl (fun s i hi => agree_remember s _ (other i hi)) s

theorem agree_settle {claims : Nat → Nat → Prop} (s : Schedule) {node index : Nat}
    (bound : Score) (other : ¬claims node index) : Agree claims s (s.settle node index bound) := by
  rw [settle]
  split
  · exact agree_remember s bound other
  · exact .refl claims s

/-! ## Handing out a batch -/

theorem isSettled_handOut (l : Lattice) (s : Schedule) (c : Candidate) (n i : Nat) (b : Score) :
    (handOut l s c).isSettled n i b = if n = c.node ∧ i ∈ c.indices then
      (l.bound c.premise.constraints i).same b else s.isSettled n i b := by
  rw [handOut]
  induction c.indices generalizing s with
  | nil => simp
  | cons j indices ih =>
    rw [List.foldl_cons, ih, isSettled_remember]
    by_cases later : n = c.node ∧ i ∈ indices
    · rw [if_pos later, if_pos ⟨later.1, List.mem_cons_of_mem j later.2⟩]
    · rw [if_neg later]
      by_cases here : n = c.node ∧ i = j
      · rw [if_pos here, if_pos ⟨here.1, List.mem_cons.mpr (.inl here.2)⟩, here.2]
      · rw [if_neg here, if_neg]
        rintro ⟨node, hi⟩
        rcases List.mem_cons.mp hi with eq | hi
        · exact here ⟨node, eq⟩
        · exact later ⟨node, hi⟩

theorem isSettled_foldl_handOut_iff (hl : l.Formed ok width)
    (listed : ∀ c ∈ batch, ∃ n, (c.premise.constraints, n) ∈ l.claims.entries ∧ c.node = n.number)
    {p : Path} {n : Node} (he : (p, n) ∈ l.claims.entries) (i : Nat) :
    (batch.foldl (handOut l) s).isSettled n.number i (n.bound i) = true ↔
      (∃ c ∈ batch, c.premise.constraints = p ∧ i ∈ c.indices) ∨
        s.isSettled n.number i (n.bound i) = true := by
  induction batch generalizing s with
  | nil => simp
  | cons c batch ih =>
    obtain ⟨m, hm, number⟩ := listed c List.mem_cons_self
    have itself : n.number = c.node ↔ c.premise.constraints = p := by
      constructor
      · intro same
        exact congrArg Prod.fst (hl.claims.eq_of_number_eq hm he (number.symm.trans same.symm))
      · rintro rfl
        have found := (hl.claims.find?_eq_some_iff.mpr he).symm.trans
          (hl.claims.find?_eq_some_iff.mpr hm)
        rw [number, Option.some.inj found]
    have same : c.premise.constraints = p →
        (l.bound c.premise.constraints i).same (n.bound i) = true := by
      rintro rfl
      have bound : l.bound c.premise.constraints i = n.bound i :=
        ClaimLattice.bound_of_find? (hl.claims.find?_eq_some_iff.mpr he) i
      have most := hl.bound_le c.premise.constraints i
      have top := Score.unitHeight_lt_top
      rw [← bound, Score.same_iff]
      exact ⟨rfl, by omega⟩
    rw [List.foldl_cons, ih fun c hc => listed c (List.mem_cons_of_mem _ hc), isSettled_handOut]
    simp only [List.mem_cons, exists_eq_or_imp, itself]
    split
    · next here => exact iff_of_true (.inr (same here.1)) (.inl (.inl here))
    · next other => simp [other]

/-! ## Offers -/

theorem mem_due_iff (s : Schedule) (n : Node) (i : Nat) : i ∈ s.due n ↔ i < n.bounds.size ∧
    (n.bound i).isZero = false ∧ s.isSettled n.number i (n.bound i) = false := by
  simp [due]

theorem mem_offers_iff (hl : l.Formed ok width) (c : Candidate) : c ∈ s.offers l ↔
    ∃ p n, (p, n) ∈ l.claims.entries ∧ p.length = s.level ∧ ¬l.Dropped p ∧ s.due n ≠ [] ∧
      c = ⟨p.premise width, n.number, s.due n⟩ := by
  rw [offers, List.mem_filter, List.mem_map]
  constructor
  · rintro ⟨⟨⟨premise, n⟩, listed, rfl⟩, some⟩
    obtain ⟨p, he, level, -, supported, rfl⟩ := (hl.mem_atLevel_iff s.level premise n).mp listed
    exact ⟨p, n, he, level, supported, by simpa using some, rfl⟩
  · rintro ⟨p, n, he, level, supported, some, rfl⟩
    refine ⟨⟨(_, n), (hl.mem_atLevel_iff s.level _ n).mpr
      ⟨p, he, level, ?_, supported, rfl⟩, rfl⟩, by simpa using some⟩
    obtain ⟨i, hi⟩ := List.exists_mem_of_ne_nil _ some
    exact n.claimsAny_iff.mpr ⟨i, ((mem_due_iff s n i).mp hi).2.1⟩

/-- A batch of due claims that asks for every column match at most general premises. -/
structure Chosen (q : Setting) (s : Schedule) (l : Lattice) (batch : List Candidate) : Prop where
  asks : ∀ c ∈ batch, c.indices ≠ []
  distinct : batch.Pairwise fun a b => a.premise.constraints ≠ b.premise.constraints
  antichain : ∀ a ∈ batch, ∀ b ∈ batch, ∀ i, i ∈ a.indices → i ∈ b.indices →
    a.premise.constraints.Generalizes b.premise.constraints →
      a.premise.constraints = b.premise.constraints
  listed : ∀ c ∈ batch, ∃ n, (c.premise.constraints, n) ∈ l.claims.entries ∧ c.node = n.number ∧
    c.premise = c.premise.constraints.premise q.data.width ∧
      c.premise.constraints.length = s.level ∧ ¬l.Dropped c.premise.constraints ∧
        ∀ i ∈ c.indices, i ∈ s.due n

theorem offers_proper (h : l.Ordered ok width) :
    ∀ c ∈ s.offers l, c.premise.constraints.Proper ok 0 := by
  intro c hc
  obtain ⟨e, he, rfl⟩ := List.mem_map.mp (List.mem_filter.mp hc).1
  exact h.proper_of_mem_atLevel he

def accepted (s : Schedule) (l : Lattice) : Batch := ((s.offers l).foldl Picker.offer .empty).batch

theorem sound_accepted (h : l.Ordered ok width) :
    Batch.Sound ok (s.offers l) (s.accepted l) := by
  rw [accepted, Picker.batch_offers h.positive (offers_proper h)]
  exact Batch.sound_foldl h.positive (Batch.sound_nil ok) _ (offers_proper h)

theorem nextBatch_eq (s : Schedule) (l : Lattice) : s.nextBatch l =
    match (s.accepted l).selected with
    | [] => ([], ⟨s.level+1, ∅⟩)
    | batch => (batch, batch.foldl (handOut l) s) := rfl

theorem chosen_selected (hl : l.Formed ok q.data.width) :
    Chosen q s l (s.accepted l).selected := by
  have sound := sound_accepted (s := s) hl.ordered
  generalize s.accepted l = accepted at sound
  have asks : ∀ c ∈ accepted.selected, ∀ i ∈ c.indices,
      accepted.Asks c.premise.constraints i := fun c hc i hi =>
    (Batch.requested_selected_iff accepted _ i).mp ⟨c, hc, rfl, hi⟩
  have offered : ∀ c ∈ s.offers l, ∃ n, (c.premise.constraints, n) ∈ l.claims.entries ∧
      c.node = n.number ∧ c.premise = c.premise.constraints.premise q.data.width ∧
        c.premise.constraints.length = s.level ∧ ¬l.Dropped c.premise.constraints ∧
          c.indices = s.due n := by
    intro c hc
    obtain ⟨p, n, he, level, supported, -, rfl⟩ := (mem_offers_iff hl c).mp hc
    have path : Scores.constraints (p.premise q.data.width) = p :=
      hl.ordered.constraints_premise he
    exact ⟨n, by rwa [path], rfl, by rw [path], by rwa [path], by rwa [path], rfl⟩
  refine ⟨fun c hc => ((Batch.mem_selected_iff accepted c).mp hc).2, sound.distinct_selected,
    fun a ha b hb i hi hi' general => ?_, fun c hc => ?_⟩
  · exact sound.antichain _ _ i (asks a ha i hi) (asks b hb i hi') general
  · obtain ⟨accept, -⟩ := (Batch.mem_selected_iff accepted c).mp hc
    obtain ⟨o, ho, premise, node⟩ := sound.offered c accept
    obtain ⟨n, he, number, same, level, supported, -⟩ := offered o ho
    rw [premise] at he same level supported
    refine ⟨n, he, node ▸ number, same, level, supported, fun i hi => ?_⟩
    obtain ⟨o', ho', path, hi'⟩ := sound.asked _ i (asks _ hc i hi)
    obtain ⟨n', he', -, -, -, -, due⟩ := offered o' ho'
    rw [path] at he'
    have eq := (hl.claims.find?_eq_some_iff.mpr he').symm.trans (hl.claims.find?_eq_some_iff.mpr he)
    rw [due, Option.some.inj eq] at hi'
    exact hi'

theorem nextBatch_cases (hl : l.Formed ok q.data.width) :
    (s.nextBatch l = ([], ⟨s.level+1, ∅⟩) ∧ ∀ p n i, (p, n) ∈ l.claims.entries →
      p.length = s.level → ¬l.Dropped p → 0 < (n.bound i).height →
        s.isSettled n.number i (n.bound i) = true) ∨
    ∃ batch, batch ≠ [] ∧ s.nextBatch l = (batch, batch.foldl (handOut l) s) ∧
      Chosen q s l batch := by
  have sound := sound_accepted (s := s) hl.ordered
  have chosen := chosen_selected (s := s) hl
  rw [nextBatch_eq]
  generalize s.accepted l = accepted at sound chosen
  cases eq : accepted.selected with
  | cons c batch => exact .inr ⟨c::batch, List.cons_ne_nil c batch, rfl, eq ▸ chosen⟩
  | nil =>
    refine .inl ⟨rfl, fun p n i he level supported positive => ?_⟩
    by_cases settled : s.isSettled n.number i (n.bound i) = true
    · exact settled
    · -- The claim would be due, so its node would be offered and something selected.
      have size : i < n.bounds.size := by
        by_cases lt : i < n.bounds.size
        · exact lt
        · rw [n.bound_of_size_le (by omega), Score.height_zero] at positive
          exact absurd positive (Int.lt_irrefl 0)
      have due : i ∈ s.due n := (mem_due_iff s n i).mpr ⟨size, by
        rw [← Bool.not_eq_true, Score.isZero_iff]
        omega, by simpa using settled⟩
      have offered := (mem_offers_iff hl ⟨p.premise q.data.width, n.number, s.due n⟩).mpr
        ⟨p, n, he, level, supported, List.ne_nil_of_mem due, rfl⟩
      obtain ⟨g, j, a, ha, -, hj⟩ := sound.nonempty offered (List.ne_nil_of_mem due)
      have selected := (Batch.mem_selected_iff accepted a).mpr ⟨ha, List.ne_nil_of_mem hj⟩
      rw [eq] at selected
      exact absurd selected List.not_mem_nil

end Schedule

end MatchingDependencies
