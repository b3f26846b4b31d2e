import MatchingDependencies.Proofs.Lattice.Changes

/-!
# What a lattice lists

A listing of the lattice is a part of its entries: those of a level, those a
vector reaches, those a vector falls short of. The inherited bounds are the
greatest ones among the other entries that a premise reaches.
-/

set_option autoImplicit false

namespace MatchingDependencies

open MatchingDependencies.Path (Allowed)

namespace Node

theorem fallsShortFrom_iff (bounds : Array Score) (first : Nat) (v : Scores) (numbered : v.Numbered) :
    fallsShortFrom bounds first v = true ↔
      ∃ i, i < v.length ∧ v.score i < bounds.getD (first+i) 0 := by
  induction v generalizing first with
  | nil => simp [fallsShortFrom]
  | cons s v ih =>
    have hv : Scores.Numbered v := fun x hx => numbered x (List.mem_cons_of_mem _ hx)
    rw [fallsShortFrom]
    by_cases inside : first < bounds.size
    · simp only [Array.getElem?_eq_getElem inside]
      rw [Bool.or_eq_true, decide_eq_true_iff, ih (first+1) hv]
      constructor
      · rintro (lt | ⟨i, hi, lt⟩)
        · exact ⟨0, by simp, by simpa [inside, Scores.score] using lt⟩
        · refine ⟨i+1, by simpa using hi, ?_⟩
          rw [show first + (i+1) = first+1+i by omega]
          exact lt
      · rintro ⟨i, hi, lt⟩
        cases i with
        | zero => exact .inl (by simpa [inside, Scores.score] using lt)
        | succ i =>
          refine .inr ⟨i, by simpa using hi, ?_⟩
          rw [show first+1+i = first + (i+1) by omega]
          exact lt
    · rw [Array.getElem?_eq_none (by omega)]
      simp only [Bool.false_eq_true, false_iff, not_exists, not_and]
      intro i hi lt
      have nonneg : 0 ≤ (Scores.score (s::v) i).height := numbered.demand_nonneg i
      rw [Array.getD_eq_getD_getElem?, Array.getElem?_eq_none (by omega), Option.getD_none,
        Score.lt_iff, Score.height_zero] at lt
      omega

theorem violatedBy_iff (n : Node) {v : Scores} (numbered : v.Numbered) :
    n.violatedBy v = true ↔ ∃ i, i < v.length ∧ v.score i < n.bound i := by
  rw [violatedBy, fallsShortFrom_iff n.bounds 0 v numbered]
  simp [bound]

theorem Fits.violatedBy_iff {width : Nat} {n : Node} (h : n.Fits width) {v : Scores}
    (len : v.length = width) (numbered : v.Numbered) :
    n.violatedBy v = true ↔ ∃ i, i < width ∧ (v.score i).height < (n.bound i).height := by
  rw [n.violatedBy_iff numbered, len]
  refine exists_congr fun i => and_congr_right fun _ => ?_
  have range := (Score.inUnit_iff _).mp (h.bound_inUnit i)
  have top := Score.unitHeight_lt_top
  rw [Score.lt_iff]
  omega

end Node

namespace ClaimLattice

variable {ok : Allowed} {l : ClaimLattice}

/-! ## What a vector reaches -/

theorem reached_eq (l : ClaimLattice) (v : Scores) :
    l.reached v = (l.entries.filter fun e => Branches.allMet v.meets e.1).map
      fun e => (e.1.premise l.width, e.2) := by
  rw [reached, Branches.reached_eq, Scores.meetsAt_toArray, entries, List.filter_cons]
  rfl

theorem allMet_meets_iff (pos : ok.Positive) {v : Scores} (numbered : v.Numbered) {p : Path}
    (proper : p.Proper ok 0) : Branches.allMet v.meets p = true ↔ v.Reaches p := by
  rw [← Scores.generalizes_constraints_iff, Path.generalizes_iff_forall_mem proper
    (by simpa using numbered.demand_nonneg), Branches.allMet, List.all_eq_true]
  apply forall₂_congr
  intro x hx
  rw [v.meets_iff x.1 (pos _ _ (proper.allowed x hx)).1, Scores.demand_constraints]

theorem Sound.allMet_meets_iff (hl : l.Sound ok) {v : Scores} (numbered : v.Numbered)
    {e : Path × Node} (he : e ∈ l.entries) :
    Branches.allMet v.meets e.1 = true ↔ v.Reaches e.1 :=
  ClaimLattice.allMet_meets_iff hl.positive numbered (hl.mem_entries he)

theorem violated_eq (l : ClaimLattice) (v : Scores) :
    l.violated v =
      (l.entries.filter fun e => Branches.allMet v.meets e.1 && e.2.violatedBy v).map
        fun e => (e.1.premise l.width, e.2) := by
  rw [violated, reached_eq, List.filter_map, List.filter_filter]
  exact congrArg _ (List.filter_congr fun e _ => Bool.and_comm ..)

theorem Sound.violated_paths (hl : l.Sound ok) (v : Scores) :
    (l.violated v).map (fun e => e.1.constraints) =
      (l.entries.filter fun e => Branches.allMet v.meets e.1 && e.2.violatedBy v).map (·.1) := by
  rw [violated_eq, List.map_map]
  refine List.map_congr_left fun e he => ?_
  exact (hl.mem_entries (List.mem_filter.mp he).1).constraints_premise hl.positive hl.within

theorem Sound.mem_violated_iff (hl : l.Sound ok) {v : Scores} (len : v.length = l.width)
    (numbered : v.Numbered) (p : Path) :
    p ∈ (l.violated v).map (fun e => e.1.constraints) ↔
      v.Reaches p ∧ ∃ i, (v.score i).height < (l.bound p i).height := by
  rw [hl.violated_paths, List.mem_map]
  constructor
  · rintro ⟨e, he, rfl⟩
    obtain ⟨he, test⟩ := List.mem_filter.mp he
    rw [Bool.and_eq_true, hl.allMet_meets_iff numbered he, (hl.fits e he).violatedBy_iff len numbered]
      at test
    obtain ⟨reaches, i, -, lt⟩ := test
    exact ⟨reaches, i, by rwa [hl.bound_of_mem he]⟩
  · rintro ⟨reaches, i, lt⟩
    have nonneg : 0 ≤ (v.score i).height := numbered.demand_nonneg i
    obtain ⟨n, he, eq, hi⟩ := hl.exists_of_bound (p := p) (i := i) (by omega)
    refine ⟨(p, n), List.mem_filter.mpr ⟨he, ?_⟩, rfl⟩
    rw [Bool.and_eq_true, hl.allMet_meets_iff numbered he, (hl.fits _ he).violatedBy_iff len numbered]
    exact ⟨reaches, i, hi, by rwa [eq]⟩

/-! ## Inherited bounds -/

theorem foldl_raise (bounds : List Score) (start : Score)
    (number : start.height < Score.topHeight) :
    (bounds.foldl raise start).height < Score.topHeight ∧
      (∀ b ∈ bounds, b.height < Score.topHeight →
        b.height ≤ (bounds.foldl raise start).height) ∧
      (bounds.foldl raise start = start ∨
        start.height < (bounds.foldl raise start).height ∧ bounds.foldl raise start ∈ bounds) := by
  induction bounds generalizing start with
  | nil => exact ⟨number, by simp, .inl rfl⟩
  | cons b bounds ih =>
    have step : (raise start b).height < Score.topHeight ∧
        (b.height < Score.topHeight → b.height ≤ (raise start b).height) ∧
        (raise start b = start ∨ start.height < (raise start b).height ∧ raise start b = b) := by
      rw [raise]
      split
      · next lt =>
        rw [Score.lt_iff] at lt
        exact ⟨lt.2, fun _ => Int.le_refl _, .inr ⟨lt.1, rfl⟩⟩
      · next ge =>
        rw [Score.lt_iff] at ge
        exact ⟨number, fun _ => by omega, .inl rfl⟩
    obtain ⟨stays, least, attained⟩ := ih (raise start b) step.1
    have above : (raise start b).height ≤ (bounds.foldl raise (raise start b)).height := by
      rcases attained with same | ⟨lt, -⟩
      · exact Int.le_of_eq (congrArg _ same.symm)
      · exact Int.le_of_lt lt
    rw [List.foldl_cons]
    refine ⟨stays, fun c hc numbered => ?_, ?_⟩
    · rcases List.mem_cons.mp hc with rfl | hc
      · exact Int.le_trans (step.2.1 numbered) above
      · exact least c hc numbered
    · rcases attained with same | ⟨lt, mem⟩
      · rw [same]
        rcases step.2.2 with eq | ⟨lt, eq⟩
        · exact .inl eq
        · exact .inr ⟨lt, eq.symm ▸ List.mem_cons_self⟩
      · refine .inr ⟨?_, List.mem_cons_of_mem _ mem⟩
        rcases step.2.2 with eq | ⟨raised, -⟩
        · exact Int.lt_of_le_of_lt (Int.le_of_eq (congrArg _ eq.symm)) lt
        · exact Int.lt_trans raised lt

theorem foldl_raiseBounds {width : Nat} {start : Array Score} (nodes : List Node)
    (size : start.size = width) (sizes : ∀ n ∈ nodes, n.bounds.size = width) :
    (nodes.foldl raiseBounds start).size = width ∧
      ∀ i, (nodes.foldl raiseBounds start).getD i 0 =
        (nodes.map (·.bound i)).foldl raise (start.getD i 0) := by
  induction nodes generalizing start with
  | nil => exact ⟨size, fun _ => rfl⟩
  | cons n nodes ih =>
    have same := sizes n List.mem_cons_self
    have first : (raiseBounds start n).size = width := by simp [raiseBounds, size, same]
    have each : ∀ i, (raiseBounds start n).getD i 0 = raise (start.getD i 0) (n.bound i) := by
      intro i
      rw [Array.getD_eq_getD_getElem?, Array.getD_eq_getD_getElem?, Node.bound,
        Array.getD_eq_getD_getElem?, raiseBounds, Array.getElem?_zipWith]
      by_cases hi : i < width
      · simp [size, same, hi]
      · simp only [Array.getElem?_eq_none (show start.size ≤ i by omega),
          Array.getElem?_eq_none (show n.bounds.size ≤ i by omega)]
        exact (ite_self _).symm
    obtain ⟨final, rest⟩ := ih first fun m hm => sizes m (List.mem_cons_of_mem _ hm)
    exact ⟨final, fun i => by rw [List.foldl_cons, rest, each, List.map_cons, List.foldl_cons]⟩

section Ancestors

variable (pos : ok.Positive) (hb : l.branches.Proper ok 0)

include pos hb

theorem ancestors_eq (v : Scores) : l.ancestors v =
    (l.entries.filter fun e => Branches.allMet v.meets e.1 && v.constraints ≠ e.1).map (·.2) := by
  have below := hb.coveredBeside_eq pos.nonzero (Scores.meetsAt v.toArray) (some v.constraints)
  rw [Scores.meetsAt_toArray] at below
  rw [ancestors, Scores.meetsAt_toArray, below, entries, List.filter_cons]
  cases v.constraints <;> simp [Branches.allMet]

/-- What stands at a premise itself is not among its ancestors. -/
theorem ancestors_modify (v : Scores) (f : Node → Node) :
    (l.modify v.constraints f).ancestors v = l.ancestors v := by
  rw [ancestors_eq pos hb, ancestors_eq pos (proper_modify hb v.constraints f),
    entries_modify pos.nonzero hb, List.filter_map, List.map_map]
  refine List.map_congr_left fun e he => ?_
  have test := (List.mem_filter.mp he).2
  rw [Function.comp_apply, Bool.and_eq_true, decide_eq_true_iff] at test
  exact if_neg test.2.symm

theorem mem_ancestors_iff {v : Scores} (numbered : v.Numbered) (n : Node) :
    n ∈ l.ancestors v ↔ ∃ g, (g, n) ∈ l.entries ∧ v.Reaches g ∧ g ≠ v.constraints := by
  rw [ancestors_eq pos hb, List.mem_map]
  constructor
  · rintro ⟨⟨g, m⟩, he, rfl⟩
    obtain ⟨he, test⟩ := List.mem_filter.mp he
    rw [Bool.and_eq_true, decide_eq_true_iff,
      allMet_meets_iff pos numbered (proper_of_mem_entries hb he)] at test
    exact ⟨g, he, test.1, test.2.symm⟩
  · rintro ⟨g, he, reaches, differ⟩
    refine ⟨(g, n), List.mem_filter.mpr ⟨he, ?_⟩, rfl⟩
    rw [Bool.and_eq_true, decide_eq_true_iff,
      allMet_meets_iff pos numbered (proper_of_mem_entries hb he)]
    exact ⟨reaches, differ.symm⟩

theorem score_inheritedBounds (sizes : ∀ e ∈ l.entries, e.2.bounds.size = l.width) (v : Scores) :
    (l.inheritedBounds v).length = l.width ∧ ∀ i, (l.inheritedBounds v).score i =
      ((l.ancestors v).map (·.bound i)).foldl raise 0 := by
  have fit : ∀ n ∈ l.ancestors v, n.bounds.size = l.width := by
    intro n hn
    rw [ancestors_eq pos hb] at hn
    obtain ⟨e, he, rfl⟩ := List.mem_map.mp hn
    exact sizes e (List.mem_filter.mp he).1
  have start : (Array.replicate l.width (0 : Score)).size = l.width := Array.size_replicate
  obtain ⟨size, each⟩ := foldl_raiseBounds (l.ancestors v) start fit
  refine ⟨by rw [inheritedBounds, Array.length_toList, size], fun i => ?_⟩
  have zero : (Array.replicate l.width (0 : Score)).getD i 0 = 0 := by
    rw [Array.getD_eq_getD_getElem?, Array.getElem?_replicate]
    split <;> rfl
  rw [Scores.score_eq_getD, inheritedBounds, List.getD_eq_getElem?_getD, Array.getElem?_toList,
    ← Array.getD_eq_getD_getElem?, each, zero]

end Ancestors

theorem Sound.score_inheritedBounds (hl : l.Sound ok) (v : Scores) (i : Nat) :
    (l.inheritedBounds v).score i = ((l.ancestors v).map (·.bound i)).foldl raise 0 :=
  (ClaimLattice.score_inheritedBounds hl.positive hl.branches (fun e he => (hl.fits e he).size)
    v).2 i

theorem zero_number : (0 : Score).height < Score.topHeight := by
  rw [Score.height_zero]
  decide

theorem Sound.bound_le_inherited (hl : l.Sound ok) {v : Scores} (numbered : v.Numbered) {g : Path}
    (reaches : v.Reaches g) (differ : g ≠ v.constraints) (i : Nat) :
    (l.bound g i).height ≤ ((l.inheritedBounds v).score i).height := by
  obtain ⟨-, least, attained⟩ :=
    foldl_raise ((l.ancestors v).map (·.bound i)) 0 zero_number
  rw [hl.score_inheritedBounds]
  by_cases positive : 0 < (l.bound g i).height
  · obtain ⟨n, he, eq, -⟩ := hl.exists_of_bound positive
    have mem := (mem_ancestors_iff hl.positive hl.branches numbered n).mpr
      ⟨g, he, reaches, differ⟩
    have range := hl.bound_le g i
    have top := Score.unitHeight_lt_top
    rw [← eq] at range ⊢
    exact least _ (List.mem_map_of_mem mem) (by omega)
  · rw [Score.height_zero] at attained
    rcases attained with same | ⟨above, -⟩
    · rw [same, Score.height_zero]
      omega
    · omega

theorem Sound.inherited_attained (hl : l.Sound ok) {v : Scores} (numbered : v.Numbered) (i : Nat) :
    (l.inheritedBounds v).score i = 0 ∨
      ∃ g, v.Reaches g ∧ g ≠ v.constraints ∧ (l.inheritedBounds v).score i = l.bound g i := by
  rw [hl.score_inheritedBounds]
  rcases (foldl_raise ((l.ancestors v).map (·.bound i)) 0 zero_number).2.2 with
    start | ⟨-, mem⟩
  · exact .inl start
  · obtain ⟨n, hn, eq⟩ := List.mem_map.mp mem
    obtain ⟨g, he, reaches, differ⟩ :=
      (mem_ancestors_iff hl.positive hl.branches numbered n).mp hn
    exact .inr ⟨g, reaches, differ, by rw [← eq, hl.bound_of_mem he]⟩

theorem Sound.inherited_inUnit (hl : l.Sound ok) (v : Scores) : (l.inheritedBounds v).InUnit := by
  intro s hs
  obtain ⟨i, hi, rfl⟩ := List.getElem_of_mem hs
  rw [← Scores.score_eq_getElem hi, hl.score_inheritedBounds]
  rcases (foldl_raise ((l.ancestors v).map (·.bound i)) 0 zero_number).2.2 with
    start | ⟨-, mem⟩
  · rw [start]
    decide
  · obtain ⟨n, hn, eq⟩ := List.mem_map.mp mem
    rw [ancestors_eq hl.positive hl.branches] at hn
    obtain ⟨e, he, rfl⟩ := List.mem_map.mp hn
    rw [← eq]
    exact (hl.fits e (List.mem_filter.mp he).1).bound_inUnit i

/-! ## Levels -/

theorem atLevel_eq (costs : ∀ c t, 0 < l.cost c t) (level : Nat) :
    l.atLevel level = (l.entries.filter fun e => l.levelOf e.1 = level && e.2.claimsAny).map
      fun e => (e.1.premise l.width, e.2) := by
  have root : l.levelOf [] = 0 := rfl
  have deeper : ∀ e ∈ l.branches.entries, 0 < l.levelOf e.1 := fun e he =>
    Branches.sumOver_pos costs (l.branches.ne_nil_of_mem_entries e he)
  have all : (if level = 0 then [(Scores.zeros l.width, l.root)]
      else l.branches.atLevel l.cost level (Scores.zeros l.width)) =
        (l.entries.filter fun e => l.levelOf e.1 = level).map
          fun e => (e.1.premise l.width, e.2) := by
    rw [entries, List.filter_cons, root]
    by_cases zero : level = 0
    · have none : l.branches.entries.filter (fun e => l.levelOf e.1 = level) = [] := by
        rw [List.filter_eq_nil_iff]
        intro e he
        have := deeper e he
        simp only [decide_eq_true_iff]
        omega
      rw [if_pos zero, none, if_pos (by simp [zero])]
      rfl
    · rw [if_neg zero, if_neg (by simpa using Ne.symm zero), Branches.atLevel_eq costs]
      rfl
  rw [atLevel, all, List.filter_map, List.filter_filter]
  refine congrArg _ (List.filter_congr fun e _ => Bool.and_comm ..)

end ClaimLattice

end MatchingDependencies
