import MatchingDependencies.Proofs.Lattice.Changes

/-!
# Adding claims

A claim is added if neither its premise nor a generalization claims as much
already. Afterwards it is implied, all other bounds are as before, and the
level of the premise has been noted.
-/

set_option autoImplicit false

namespace MatchingDependencies.ClaimLattice

open MatchingDependencies.Path (Allowed)

variable {ok : Allowed} {l : ClaimLattice} {p q : Path}

def Noted (l : ClaimLattice) (level : Nat) : Prop :=
  ∃ n, l.lowestChanged = some n ∧ n ≤ level

theorem Noted.mono {k m : Nat} (h : l.Noted k) (le : k ≤ m) : l.Noted m := by
  obtain ⟨n, hn, hk⟩ := h
  exact ⟨n, hn, Nat.le_trans hk le⟩

theorem noted_noteChange (l : ClaimLattice) (level k : Nat) :
    (l.noteChange level).Noted k ↔ level ≤ k ∨ l.Noted k := by
  simp only [Noted, noteChange, Option.some.injEq]
  cases l.lowestChanged with
  | none => simp
  | some n =>
    simp only [Option.map_some, Option.getD_some, Option.some.injEq, exists_eq_left']
    omega

theorem Sound.aside (hl : l.Sound ok) (lowestChanged : Option Nat) (visited : Nat) :
    Sound ok { l with lowestChanged, visited } :=
  ⟨hl.positive, hl.within, hl.costs, hl.branches, hl.fits, hl.levels, hl.numbers, hl.fresh⟩

/-! ## Looking for a claim -/

theorem Sound.implied_iff (hl : l.Sound ok) {b : Score} (hb : b.IsThreshold) (i : Nat) :
    l.Implied p b.height i ↔ ∃ e ∈ l.entries, e.1.Generalizes p ∧ e.2.claims b i = true := by
  have top := Score.unitHeight_lt_top
  have claims : ∀ n : Node, n.Fits l.width →
      (n.claims b i = true ↔ b.height ≤ (n.bound i).height) := by
    intro n hn
    have := (Score.inUnit_iff _).mp (hn.bound_inUnit i)
    rw [Node.claims, decide_eq_true_iff, Score.le_iff]
    omega
  constructor
  · rintro ⟨g, hg, le⟩
    obtain ⟨n, he, eq, -⟩ := hl.exists_of_bound (Int.lt_of_lt_of_le hb.1 le)
    rw [← eq] at le
    exact ⟨(g, n), he, hg, (claims n (hl.fits _ he)).mpr le⟩
  · rintro ⟨e, he, hg, test⟩
    refine ⟨e.1, hg, ?_⟩
    rw [hl.bound_of_mem he]
    exact (claims e.2 (hl.fits e he)).mp test

theorem Sound.allMet_iff (hl : l.Sound ok) (hp : p.Proper ok 0) {e : Path × Node}
    (he : e ∈ l.entries) : Branches.allMet p.meets e.1 = true ↔ e.1.Generalizes p :=
  Branches.allMet_iff hl.positive (hl.mem_entries he) hp

theorem Sound.seekInsertion_found (hl : l.Sound ok) (hp : p.Proper ok 0) {b : Score}
    (hb : b.IsThreshold) (i : Nat) :
    (l.branches.seekInsertion p.meets (fun n => n.claims b i) p l.root 0).found = true ↔
      l.Implied p b.height i := by
  rw [Branches.seekInsertion_eq_lookThrough, lookThrough_found, List.any_eq_true,
    hl.implied_iff hb]
  constructor
  · rintro ⟨n, hn, test⟩
    rcases (hl.branches.mem_insertionOrder_iff hl.nonzero hp (fun _ _ _ => rfl) _ _).mp hn with
      rfl | ⟨g, he, met⟩
    · exact ⟨([], l.root), List.mem_cons_self, fun c => by
        simpa using hp.demand_nonneg hl.positive c, test⟩
    · have he' : (g, n) ∈ l.entries := List.mem_cons_of_mem _ he
      exact ⟨(g, n), he', (hl.allMet_iff hp he').mp met, test⟩
  · rintro ⟨e, he, hg, test⟩
    refine ⟨e.2, ?_, test⟩
    rw [hl.branches.mem_insertionOrder_iff hl.nonzero hp (fun _ _ _ => rfl)]
    have met := (hl.allMet_iff hp he).mpr hg
    rcases List.mem_cons.mp he with rfl | he
    · exact .inl rfl
    · exact .inr ⟨e.1, he, met⟩

theorem Sound.isImplied_iff_entries (hl : l.Sound ok) (hp : p.Proper ok 0) (b : Score) (i : Nat) :
    (l.isImplied p b i).1 = true ↔
      ∃ e ∈ l.entries, e.1.Generalizes p ∧ e.2.claims b i = true := by
  rw [isImplied, Branches.seek_eq_lookThrough]
  have either : ((look (fun n : Node => n.claims b i) l.root 0).orElse
      (lookThrough (fun n => n.claims b i) (l.branches.covered p.meets))).found =
        (l.root.claims b i || (l.branches.covered p.meets).any fun n => n.claims b i) := by
    cases h : l.root.claims b i <;> simp [look, Sought.orElse, h, lookThrough_found]
  rw [either, Bool.or_eq_true, List.any_eq_true]
  constructor
  · rintro (test | ⟨n, hn, test⟩)
    · exact ⟨([], l.root), List.mem_cons_self, fun c => by
        simpa using hp.demand_nonneg hl.positive c, test⟩
    · obtain ⟨g, he, met⟩ := Branches.mem_covered_iff.mp hn
      have he' : (g, n) ∈ l.entries := List.mem_cons_of_mem _ he
      exact ⟨(g, n), he', (hl.allMet_iff hp he').mp met, test⟩
  · rintro ⟨e, he, hg, test⟩
    have met := (hl.allMet_iff hp he).mpr hg
    rcases List.mem_cons.mp he with rfl | he
    · exact .inl test
    · exact .inr ⟨e.2, Branches.mem_covered_iff.mpr ⟨e.1, he, met⟩, test⟩

theorem Sound.isImplied_iff (hl : l.Sound ok) (hp : p.Proper ok 0) {b : Score}
    (hb : b.IsThreshold) (i : Nat) :
    (l.isImplied p b i).1 = true ↔ l.Implied p b.height i := by
  rw [hl.implied_iff hb, hl.isImplied_iff_entries hp]

/-! ## Making a claim -/

section Claim

variable (l p) (b : Score) (i : Nat)

@[simp] theorem width_claim : (l.claim p b i).width = l.width := by cases p <;> rfl
@[simp] theorem cost_claim : (l.claim p b i).cost = l.cost := by cases p <;> rfl

end Claim

section ProperClaim

variable (nonzero : ok.Nonzero) (hb : l.branches.Proper ok 0) (hp : p.Proper ok 0) (b : Score)
  (i : Nat)

include nonzero hb hp

omit nonzero in
theorem proper_claim : (l.claim p b i).branches.Proper ok 0 := by
  cases p with
  | nil => exact hb
  | cons x p => exact hb.place _ hp

/-- The node of the premise has the new bound, and nodes without claims may
have been made on the way to it. -/
theorem find?_claim (q : Path) :
    Branches.Placed (Node.blank l.width) (Node.withBound i b) p q (l.find? q)
      ((l.claim p b i).find? q) := by
  cases p with
  | nil =>
    cases q with
    | nil => exact ⟨fun _ => ⟨_, rfl, .inl rfl⟩, fun h => absurd rfl h⟩
    | cons y q => exact Branches.Placed.refl _ (by simp)
  | cons x p =>
    cases q with
    | nil => exact Branches.Placed.refl _ (by simp)
    | cons y q => exact hb.placed nonzero l.size hp (by simp) (by simp) l.root

theorem keeps_claim : Keeps l (l.claim p b i) := by
  intro q n hn
  have placed := find?_claim nonzero hb hp b i q
  by_cases same : q = p
  · obtain ⟨a, new, old⟩ := placed.1 same
    rcases old with old | ⟨old, -⟩
    · rw [hn] at old
      obtain rfl := Option.some.inj old
      exact ⟨_, new, rfl⟩
    · rw [hn] at old
      nomatch old
  · rcases placed.2 same with kept | ⟨-, old, -⟩
    · exact ⟨n, kept.trans hn, rfl⟩
    · rw [hn] at old
      nomatch old

/-- What holds of all nodes, of nodes without claims, and of a node with the new
bound holds of the nodes afterwards. Their paths are old ones or begin the path
of the premise. -/
theorem mem_entries_claim {holds : Node → Prop} (old : ∀ e ∈ l.entries, holds e.2)
    (blank : ∀ k, holds (Node.blank l.width k)) (final : ∀ n, holds n → holds (n.withBound i b)) :
    ∀ e ∈ (l.claim p b i).entries,
      holds e.2 ∧ (e.1 <+: p ∨ ∃ f ∈ l.entries, f.1 = e.1) := by
  intro e he
  have found : (l.claim p b i).find? e.1 = some e.2 :=
    (find?_eq_some_iff nonzero (proper_claim hb hp b i)).mpr he
  have placed := find?_claim nonzero hb hp b i e.1
  rw [found] at placed
  by_cases same : e.1 = p
  · obtain ⟨a, new, before⟩ := placed.1 same
    refine ⟨?_, .inl (same ▸ List.prefix_refl _)⟩
    rw [Option.some.inj new]
    rcases before with before | ⟨-, k, rfl⟩
    · exact final a (old _ ((find?_eq_some_iff nonzero hb).mp before))
    · exact final _ (blank k)
  · rcases placed.2 same with kept | ⟨beginning, -, k, new⟩
    · have before := (find?_eq_some_iff nonzero hb).mp kept.symm
      exact ⟨old _ before, .inr ⟨_, before, rfl⟩⟩
    · refine ⟨?_, .inl beginning⟩
      rw [Option.some.inj new]
      exact blank k

theorem numbers_claim :
    ∃ k, (l.claim p b i).size = l.size + k ∧
      ((l.claim p b i).entries.map (·.2.number)).Perm
        (l.entries.map (·.2.number) ++ List.range' l.size k) := by
  cases p with
  | nil =>
    refine ⟨0, rfl, ?_⟩
    rw [List.range'_zero, List.append_nil]
    exact .refl _
  | cons x p =>
    refine ⟨(x::p).length - l.branches.depth (x::p), rfl, ?_⟩
    have numbers := hb.numbers_place nonzero Node.number
      (fun k => (rfl : (Node.blank l.width k).number = k))
      (fun n => (rfl : (Node.withBound i b n).number = n.number)) l.size hp
    rw [Branches.values, Branches.values, List.map_map, List.map_map] at numbers
    exact numbers.cons _

theorem distinct_claim (distinct : (l.entries.map (·.2.number)).Nodup)
    (fresh : ∀ e ∈ l.entries, e.2.number < l.size) :
    ((l.claim p b i).entries.map (·.2.number)).Nodup ∧
      ∀ e ∈ (l.claim p b i).entries, e.2.number < (l.claim p b i).size := by
  obtain ⟨k, size, numbers⟩ := numbers_claim nonzero hb hp b i
  constructor
  · refine (numbers.nodup_iff).mpr (List.nodup_append.mpr ⟨distinct, List.nodup_range', ?_⟩)
    intro n hn m hm eq
    obtain ⟨e, he, rfl⟩ := List.mem_map.mp hn
    have := fresh e he
    have := List.mem_range'_1.mp hm
    omega
  · intro e he
    have := numbers.subset (List.mem_map_of_mem he)
    rw [size]
    rcases List.mem_append.mp this with old | new
    · obtain ⟨f, hf, eq⟩ := List.mem_map.mp old
      have := fresh f hf
      omega
    · have := List.mem_range'_1.mp new
      omega

end ProperClaim

theorem levelOf_le_of_append (h : q <+: p) : l.levelOf q ≤ l.levelOf p := by
  obtain ⟨rest, rfl⟩ := h
  rw [levelOf, levelOf]
  induction q with
  | nil => exact Nat.zero_le _
  | cons x q ih =>
    rw [List.cons_append, sumOver_cons, sumOver_cons]
    omega

theorem levelOf_le_max (levels : ∀ e ∈ l.entries, l.levelOf e.1 ≤ l.maxLevel)
    (h : q <+: p ∨ ∃ f ∈ l.entries, f.1 = q) :
    l.levelOf q ≤ max l.maxLevel (l.levelOf p) := by
  rcases h with beginning | ⟨f, hf, rfl⟩
  · exact Nat.le_trans (levelOf_le_of_append beginning) (Nat.le_max_right ..)
  · exact Nat.le_trans (levels f hf) (Nat.le_max_left ..)

theorem Sound.bound_claim (hl : l.Sound ok) (hp : p.Proper ok 0) {i : Nat} (hi : i < l.width)
    (b : Score) (q : Path) (j : Nat) :
    (l.claim p b i).bound q j = if q = p ∧ j = i then b else l.bound q j := by
  have placed := find?_claim hl.nonzero hl.branches hp b i q
  by_cases same : q = p
  · subst same
    obtain ⟨a, new, old⟩ := placed.1 rfl
    have size : a.bounds.size = l.width := by
      rcases old with old | ⟨-, k, rfl⟩
      · exact (hl.fits _ (hl.find?_eq_some_iff.mp old)).size
      · exact (Node.fits_blank l.width k).size
    rw [bound_of_find? new, a.bound_withBound b (by omega)]
    rcases old with old | ⟨old, k, rfl⟩
    · simp [bound_of_find? old j]
    · simp [bound_of_find?_none old]
  · rw [if_neg fun h => same h.1]
    rcases placed.2 same with kept | ⟨-, old, k, new⟩
    · rw [bound, bound, kept]
    · rw [bound_of_find? new, bound_of_find?_none old, Node.bound_blank]

theorem Sound.claim (hl : l.Sound ok) (hp : p.Proper ok 0) (i : Nat) {b : Score}
    (hb : b.inUnit = true) (lowest : Option Nat) :
    Sound ok { l.claim p b i with
      maxLevel := max l.maxLevel (l.levelOf p), lowestChanged := lowest } := by
  obtain ⟨numbers, fresh⟩ := distinct_claim hl.nonzero hl.branches hp b i hl.numbers hl.fresh
  have entry := mem_entries_claim hl.nonzero hl.branches hp b i hl.fits
    (Node.fits_blank l.width) fun n hn => hn.withBound i hb
  constructor
  · exact hl.positive
  · simpa using hl.within
  · simpa using hl.costs
  · exact proper_claim hl.branches hp b i
  · intro e he
    rw [width_claim]
    exact (entry e he).1
  · intro e he
    change sumOver _ e.1 ≤ max l.maxLevel (l.levelOf p)
    rw [cost_claim]
    exact levelOf_le_max hl.levels (entry e he).2
  · exact numbers
  · exact fresh

/-! ## Adding a claim -/

theorem cost_addIfMinimal (l : ClaimLattice) (p : Path) (b : Score) (i : Nat) :
    (l.addIfMinimal p b i).2.width = l.width ∧ (l.addIfMinimal p b i).2.cost = l.cost := by
  rw [addIfMinimal]
  dsimp only
  split
  · exact ⟨rfl, rfl⟩
  · exact ⟨width_claim .., cost_claim ..⟩

theorem proper_addIfMinimal (hb : l.branches.Proper ok 0) (hp : p.Proper ok 0) (b : Score)
    (i : Nat) : (l.addIfMinimal p b i).2.branches.Proper ok 0 := by
  rw [addIfMinimal]
  dsimp only
  split
  · exact hb
  · exact proper_claim (l := l.visiting _) hb hp b i

theorem addIfMinimal_cases (l : ClaimLattice) (p : Path) (b : Score) (i : Nat) : ∃ count,
    l.addIfMinimal p b i = (false, l.visiting count) ∨
      l.addIfMinimal p b i =
        (true, ({ l.claim p b i with
          maxLevel := max l.maxLevel (l.levelOf p)
          lowestChanged := (l.noteChange (l.levelOf p)).lowestChanged }).visiting count) := by
  refine ⟨(l.branches.seekInsertion p.meets (fun n => n.claims b i) p l.root 0).count, ?_⟩
  rw [addIfMinimal]
  dsimp only
  split
  · exact .inl rfl
  · exact .inr (by cases p <;> rfl)

section Add

variable {b : Score} {i : Nat}

theorem Sound.addIfMinimal_of_implied (hl : l.Sound ok) (hp : p.Proper ok 0)
    (hb : b.IsThreshold) (h : l.Implied p b.height i) :
    ∃ count, l.addIfMinimal p b i = (false, l.visiting count) := by
  have found := (hl.seekInsertion_found hp hb i).mpr h
  exact ⟨_, by rw [addIfMinimal, found]; rfl⟩

theorem Sound.addIfMinimal_of_not_implied (hl : l.Sound ok) (hp : p.Proper ok 0)
    (hb : b.IsThreshold) (h : ¬l.Implied p b.height i) :
    ∃ count, l.addIfMinimal p b i =
      (true, ({ l.claim p b i with
        maxLevel := max l.maxLevel (l.levelOf p)
        lowestChanged := (l.noteChange (l.levelOf p)).lowestChanged }).visiting count) := by
  have found := mt (hl.seekInsertion_found hp hb i).mp h
  refine ⟨(l.branches.seekInsertion p.meets (fun n => n.claims b i) p l.root 0).count, ?_⟩
  rw [addIfMinimal, if_neg found]
  cases p <;> rfl

theorem Sound.addIfMinimal (hl : l.Sound ok) (hp : p.Proper ok 0) (hb : b.IsThreshold)
    (i : Nat) : (l.addIfMinimal p b i).2.Sound ok := by
  by_cases h : l.Implied p b.height i
  · obtain ⟨count, eq⟩ := hl.addIfMinimal_of_implied hp hb h
    rw [eq]
    exact hl.aside l.lowestChanged _
  · obtain ⟨count, eq⟩ := hl.addIfMinimal_of_not_implied hp hb h
    have sound := hl.claim hp i hb.inUnit (l.noteChange (l.levelOf p)).lowestChanged
    rw [eq]
    exact sound.aside _ _

end Add

end MatchingDependencies.ClaimLattice
