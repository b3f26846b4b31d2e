import MatchingDependencies.Proofs.Path.Order

/-!
# Premises and their paths

What a premise demands, its path demands, and a premise can be read off its
path again. So a vector satisfies a premise if it reaches what the path of the
premise demands.
-/

set_option autoImplicit false

namespace MatchingDependencies

open MatchingDependencies.Path (Allowed Proper)

def Path.Allowed.Within (ok : Allowed) (width : Nat) : Prop := ∀ c t, ok c t → c < width

namespace Scores

def demand (v : Scores) (c : Nat) : Int := (v.score c).height

def Fits (ok : Allowed) (v : Scores) : Prop :=
  ∀ c, (v.score c).isZero = false → ok c (v.score c)

def InUnit (v : Scores) : Prop := ∀ s ∈ v, s.inUnit = true

def Numbered (v : Scores) : Prop := ∀ s ∈ v, s.IsNonneg

instance (v : Scores) : Decidable v.InUnit :=
  inferInstanceAs (Decidable (∀ s ∈ v, s.inUnit = true))

instance (v : Scores) : Decidable v.Numbered :=
  inferInstanceAs (Decidable (∀ s ∈ v, s.IsNonneg))

variable {ok : Allowed}

theorem score_eq_getElem {v : Scores} {c : Nat} (h : c < v.length) : v.score c = v[c] := by
  rw [score_eq_getD, List.getD_eq_getElem?_getD, List.getElem?_eq_getElem h]
  rfl

theorem score_mem {v : Scores} {c : Nat} (h : c < v.length) : v.score c ∈ v := by
  rw [score_eq_getElem h]
  exact List.getElem_mem h

theorem score_of_le {v : Scores} {c : Nat} (h : v.length ≤ c) : v.score c = 0 := by
  rw [score_eq_getD, List.getD_eq_getElem?_getD, List.getElem?_eq_none h]
  rfl

theorem lt_length_of_ne_zero {v : Scores} {c : Nat} (nonzero : (v.score c).isZero = false) :
    c < v.length := by
  refine Nat.lt_of_not_le fun le => ?_
  rw [score_of_le le] at nonzero
  nomatch nonzero

theorem InUnit.score {v : Scores} (h : v.InUnit) (c : Nat) : (v.score c).inUnit = true := by
  by_cases lt : c < v.length
  · exact h _ (score_mem lt)
  · rw [score_of_le (by omega)]
    decide

theorem InUnit.numbered {v : Scores} (h : v.InUnit) : v.Numbered :=
  fun s hs => Score.isNonneg_of_inUnit (h s hs)

theorem Numbered.score {v : Scores} (h : v.Numbered) (c : Nat) : (v.score c).IsNonneg := by
  by_cases lt : c < v.length
  · exact h _ (score_mem lt)
  · rw [score_of_le (Nat.not_lt.mp lt)]
    exact Score.isNonneg_zero

theorem Numbered.demand_nonneg {v : Scores} (h : v.Numbered) (c : Nat) : 0 ≤ v.demand c :=
  (h.score c).1

theorem Numbered.demand_lt {v : Scores} (h : v.Numbered) (c : Nat) :
    v.demand c < Score.topHeight :=
  (h.score c).2

theorem InUnit.demand_le {v : Scores} (h : v.InUnit) (c : Nat) : v.demand c ≤ Score.unitHeight :=
  ((Score.inUnit_iff _).mp (h.score c)).2

theorem Numbered.le_score_iff {v : Scores} (h : v.Numbered) {b : Score} {c : Nat} :
    b ≤ v.score c ↔ b.height ≤ v.demand c := by
  rw [Score.le_iff]
  exact and_iff_left (h.demand_lt c)

theorem ranks_eq_of_compare {v w : Scores} (h : compare v w = .eq) : v.ranks = w.ranks := by
  induction v generalizing w with
  | nil =>
    cases w with
    | nil => rfl
    | cons t w => nomatch h
  | cons s v ih =>
    cases w with
    | nil => nomatch h
    | cons t w =>
      rw [List.compare_eq_compareLex, List.compareLex_cons_cons] at h
      obtain ⟨first, rest⟩ := Ordering.then_eq_eq.mp h
      rw [Score.compare_eq_eq, ← Score.rank_eq_iff] at first
      rw [← List.compare_eq_compareLex] at rest
      rw [ranks, ranks, List.map_cons, List.map_cons, first]
      exact congrArg _ (ih rest)

theorem demand_eq_of_ranks_eq {v w : Scores} (h : v.ranks = w.ranks) (c : Nat) :
    v.demand c = w.demand c := by
  have rank : ∀ u : Scores, (u.score c).rank = (u.ranks[c]?).getD (0 : Score).rank := by
    intro u
    rw [score_eq_getD, ranks, List.getElem?_map, List.getD_eq_getElem?_getD]
    cases u[c]? <;> rfl
  exact (Score.rank_eq_iff _ _).mp ((rank v).trans (h ▸ (rank w).symm))

theorem meets_iff (v : Scores) (c : Nat) {t : Score} (ht : 0 < t.height) :
    v.meets c t = true ↔ t.height ≤ v.demand c := by
  have hz := Score.isZero_iff (v.score c)
  simp only [meets, Bool.and_eq_true, Bool.not_eq_true', decide_eq_true_iff, Score.rank_le_iff,
    demand]
  constructor
  · exact fun h => h.2
  · intro h
    refine ⟨?_, h⟩
    rw [← Bool.not_eq_true, hz]
    omega

theorem Numbered.generalizes_iff {g s : Scores} (numbered : s.Numbered)
    (same : g.length = s.length) :
    g.generalizes s = true ↔ ∀ c, g.demand c ≤ s.demand c := by
  induction g generalizing s with
  | nil =>
    cases s with
    | nil => simp [generalizes]
    | cons s v => simp at same
  | cons a g ih =>
    cases s with
    | nil => simp at same
    | cons s v =>
      have hs := numbered s List.mem_cons_self
      rw [generalizes, Bool.and_eq_true, decide_eq_true_iff, Score.le_iff,
        ih (fun x hx => numbered x (List.mem_cons_of_mem _ hx)) (by simpa using same)]
      constructor
      · intro ⟨le, tails⟩ c
        cases c with
        | zero => exact le.1
        | succ c => exact tails c
      · intro h
        exact ⟨⟨h 0, hs.2⟩, fun c => h (c+1)⟩

theorem Numbered.satisfies_iff {profile premise : Scores} (numbered : profile.Numbered)
    (same : premise.length = profile.length) :
    profile.satisfies premise = true ↔ ∀ c, premise.demand c ≤ profile.demand c :=
  numbered.generalizes_iff same

/-! ## Paths of premises -/

@[simp] theorem demand_constraints (v : Scores) (c : Nat) :
    v.constraints.demand c = v.demand c := by
  rw [Path.demand, score_constraints, demand]
  split
  · next h => rw [(Score.isZero_iff _).mp h, Score.height_zero]
  · rfl

def Reaches (v : Scores) (p : Path) : Prop := ∀ c, p.demand c ≤ v.demand c

theorem Reaches.of_generalizes {v : Scores} {p q : Path} (h : v.Reaches q)
    (general : p.Generalizes q) : v.Reaches p :=
  fun c => Int.le_trans (general c) (h c)

theorem generalizes_constraints_iff (v : Scores) (p : Path) :
    p.Generalizes v.constraints ↔ v.Reaches p :=
  forall_congr' fun c => by rw [demand_constraints]

theorem constraintsFrom_proper (v : Scores) (first : Nat)
    (h : ∀ c, (v.score c).isZero = false → ok (first+c) (v.score c)) :
    Proper ok first (v.constraintsFrom first) := by
  induction v generalizing first with
  | nil => trivial
  | cons s v ih =>
    have tail : Proper ok (first+1) (constraintsFrom (first+1) v) := by
      apply ih (first+1)
      intro c hc
      rw [Nat.add_right_comm, Nat.add_assoc]
      exact h (c+1) hc
    rw [constraintsFrom]
    split
    · exact tail.mono (Nat.le_succ first)
    · next hz => exact ⟨Nat.le_refl _, h 0 (by simpa [score] using hz), tail⟩

theorem Fits.constraints_proper {v : Scores} (h : v.Fits ok) : Proper ok 0 v.constraints :=
  constraintsFrom_proper v 0 fun c hc => by simpa using h c hc

theorem fits_of_constraints_proper {v : Scores} (h : Proper ok 0 v.constraints) : v.Fits ok := by
  intro c nonzero
  have score := v.score_constraints c
  rw [nonzero, if_neg Bool.false_ne_true] at score
  rw [← score] at nonzero ⊢
  refine h.allowed _ (Path.mem_of_score_ne_zero c ?_)
  rw [Path.demand, Ne, ← Score.isZero_iff, nonzero]
  exact Bool.false_ne_true

def positives : Allowed := fun _ t => t.IsPositive

theorem positives_positive : positives.Positive := fun _ _ h => h

theorem Numbered.fits {v : Scores} (h : v.Numbered) : v.Fits positives := by
  intro c nonzero
  have nonneg : 0 ≤ (v.score c).height := h.demand_nonneg c
  rw [← Bool.not_eq_true, Score.isZero_iff] at nonzero
  exact ⟨by omega, h.demand_lt c⟩

theorem Fits.forall_mem {v : Scores} (h : v.Fits ok) {holds : Score → Prop}
    (zeros : ∀ s : Score, s.height = 0 → holds s) (others : ∀ c t, ok c t → holds t) :
    ∀ s ∈ v, holds s := by
  intro s hs
  obtain ⟨c, hc, rfl⟩ := List.getElem_of_mem hs
  rw [← score_eq_getElem hc]
  cases zero : (v.score c).isZero with
  | true => exact zeros _ ((Score.isZero_iff _).mp zero)
  | false => exact others c _ (h c zero)

theorem Fits.numbered (pos : ok.Positive) {v : Scores} (h : v.Fits ok) : v.Numbered := by
  refine h.forall_mem (fun s zero => ?_) fun c t ht => ?_
  · rw [Score.IsNonneg, zero]
    decide
  · exact (pos c t ht).isNonneg

theorem Fits.inUnit (graded : ok.Graded) {v : Scores} (h : v.Fits ok) : v.InUnit := by
  refine h.forall_mem (fun s zero => ?_) fun c t ht => (graded c t ht).inUnit
  rw [Score.inUnit_iff, zero]
  exact ⟨Int.le_refl _, Int.le_of_lt Score.unitHeight_pos⟩

theorem Numbered.constraints_proper {v : Scores} (h : v.Numbered) :
    Proper positives 0 v.constraints :=
  h.fits.constraints_proper

theorem satisfies_iff_forall_mem {v premise : Scores} (len : premise.length = v.length)
    (numbered : v.Numbered) (demands : premise.Numbered) :
    v.satisfies premise = true ↔ ∀ x ∈ premise.constraints, x.2.height ≤ v.demand x.1 := by
  have same := Path.generalizes_iff_forall_mem demands.constraints_proper
    (q := v.constraints) (by simpa using numbered.demand_nonneg)
  simp only [demand_constraints] at same
  rw [satisfies, numbered.generalizes_iff len, ← same]
  exact forall_congr' fun c => by rw [demand_constraints, demand_constraints]

theorem length_constraintsFrom (v : Scores) (first : Nat) :
    (v.constraintsFrom first).length = v.cardinality := by
  induction v generalizing first with
  | nil => rfl
  | cons s v ih =>
    rw [constraintsFrom]
    cases h : s.isZero <;> simp [h, ih, cardinality]

theorem length_constraints (v : Scores) : v.constraints.length = v.cardinality :=
  v.length_constraintsFrom 0

theorem constraintsFrom_zeros (n first : Nat) : (zeros n).constraintsFrom first = [] := by
  induction n generalizing first with
  | zero => rfl
  | succ n ih => exact ih (first+1)

@[simp] theorem constraints_zeros (n : Nat) : (zeros n).constraints = [] :=
  constraintsFrom_zeros n 0

@[simp] theorem length_zeros (n : Nat) : (zeros n).length = n := List.length_replicate

/-! ## The same values -/

theorem constraintsFrom_succ_ne (v : Scores) (first : Nat) (t : Score) (p : Path) :
    v.constraintsFrom (first+1) ≠ (first, t) :: p := by
  intro eq
  have mem : (first, t) ∈ v.constraintsFrom (first+1) := eq ▸ List.mem_cons_self
  exact Nat.not_succ_le_self first (le_of_mem_constraintsFrom v (first+1) _ mem)

theorem same_iff_constraintsFrom_eq {v w : Scores} (len : v.length = w.length)
    (numbers : ∀ s ∈ v, s.isNumber = true) (first : Nat) :
    v.same w = true ↔ v.constraintsFrom first = w.constraintsFrom first := by
  induction v generalizing w first with
  | nil =>
    cases w with
    | nil => simp [same]
    | cons t w => simp at len
  | cons s v ih =>
    cases w with
    | nil => simp at len
    | cons t w =>
      have number := (Score.isNumber_iff s).mp (numbers s List.mem_cons_self)
      have tails := ih (Nat.succ.inj len) (fun x hx => numbers x (List.mem_cons_of_mem _ hx))
        (first+1)
      have heads : s.same t = true ↔ s.height = t.height := by
        rw [Score.same_iff]
        exact ⟨And.left, fun eq => ⟨eq, eq ▸ number⟩⟩
      have zero := Score.isZero_iff
      rw [same, Bool.and_eq_true, heads, tails, constraintsFrom, constraintsFrom]
      by_cases hs : s.isZero = true <;> by_cases ht : t.isZero = true
      · rw [if_pos hs, if_pos ht, and_iff_right (((zero s).mp hs).trans ((zero t).mp ht).symm)]
      · rw [if_pos hs, if_neg ht]
        have differ : s.height ≠ t.height := fun eq => ht ((zero t).mpr (eq ▸ (zero s).mp hs))
        exact iff_of_false (fun h => differ h.1) (constraintsFrom_succ_ne v first t _)
      · rw [if_neg hs, if_pos ht]
        have differ : s.height ≠ t.height := fun eq => hs ((zero s).mpr (eq ▸ (zero t).mp ht))
        exact iff_of_false (fun h => differ h.1) (constraintsFrom_succ_ne w first s _).symm
      · rw [if_neg hs, if_neg ht, List.cons.injEq, Prod.mk.injEq]
        refine and_congr_left fun _ => ⟨fun eq => ⟨rfl, ?_⟩, fun eq => congrArg _ eq.2⟩
        exact (Score.eq_of_height_eq eq.symm (mt (zero s).mpr hs) number).symm

theorem same_iff_constraints_eq {v w : Scores} (len : v.length = w.length)
    (numbers : ∀ s ∈ v, s.isNumber = true) :
    v.same w = true ↔ v.constraints = w.constraints :=
  same_iff_constraintsFrom_eq len numbers 0

/-! ## Premises of one width -/

structure IsPremise (width : Nat) (v : Scores) : Prop where
  length : v.length = width
  inUnit : v.InUnit

instance (width : Nat) (v : Scores) : Decidable (v.IsPremise width) :=
  decidable_of_iff (v.length = width ∧ v.InUnit) ⟨fun h => ⟨h.1, h.2⟩, fun h => ⟨h.1, h.2⟩⟩

structure IsVector (width : Nat) (v : Scores) : Prop where
  length : v.length = width
  numbered : v.Numbered

instance (width : Nat) (v : Scores) : Decidable (v.IsVector width) :=
  decidable_of_iff (v.length = width ∧ v.Numbered) ⟨fun h => ⟨h.1, h.2⟩, fun h => ⟨h.1, h.2⟩⟩

theorem IsVector.constraints_proper {width : Nat} {v : Scores} (h : v.IsVector width) :
    Proper positives 0 v.constraints :=
  h.numbered.constraints_proper

theorem IsPremise.numbered {width : Nat} {v : Scores} (h : v.IsPremise width) : v.Numbered :=
  h.inUnit.numbered

theorem IsPremise.isVector {width : Nat} {v : Scores} (h : v.IsPremise width) : v.IsVector width :=
  ⟨h.length, h.numbered⟩

def StrictlyGeneralizes (g s : Scores) : Prop := g.generalizes s = true ∧ g.same s = false

section Vectors

variable {width : Nat} {a b : Scores} (ha : a.IsVector width) (hb : b.IsVector width)

include ha hb

theorem IsVector.generalizes_iff :
    a.generalizes b = true ↔ a.constraints.Generalizes b.constraints := by
  rw [hb.numbered.generalizes_iff (ha.length.trans hb.length.symm)]
  exact forall_congr' fun c => by rw [demand_constraints, demand_constraints]

theorem IsVector.same_iff : a.same b = true ↔ a.constraints = b.constraints :=
  same_iff_constraints_eq (ha.length.trans hb.length.symm) fun s hs =>
    (Score.isNumber_iff s).mpr (ha.numbered s hs).2

theorem IsVector.strictlyGeneralizes_iff : a.StrictlyGeneralizes b ↔
    a.constraints.Generalizes b.constraints ∧ a.constraints ≠ b.constraints := by
  rw [StrictlyGeneralizes, ha.generalizes_iff hb, ← Bool.not_eq_true, ha.same_iff hb]

end Vectors

section Premises

variable {width : Nat} {a b : Scores} (ha : a.IsPremise width) (hb : b.IsPremise width)

include ha hb

theorem IsPremise.generalizes_iff :
    a.generalizes b = true ↔ a.constraints.Generalizes b.constraints :=
  ha.isVector.generalizes_iff hb.isVector

theorem IsPremise.same_iff : a.same b = true ↔ a.constraints = b.constraints :=
  ha.isVector.same_iff hb.isVector

theorem IsPremise.strictlyGeneralizes_iff : a.StrictlyGeneralizes b ↔
    a.constraints.Generalizes b.constraints ∧ a.constraints ≠ b.constraints :=
  ha.isVector.strictlyGeneralizes_iff hb.isVector

end Premises

theorem IsVector.of_same {width : Nat} {a b : Scores} (ha : a.IsVector width)
    (same : a.same b = true) : b.IsVector width := by
  induction a generalizing b width with
  | nil =>
    cases b with
    | nil => exact ha
    | cons t b => nomatch same
  | cons s a ih =>
    cases b with
    | nil => nomatch same
    | cons t b =>
      rw [Scores.same, Bool.and_eq_true] at same
      obtain ⟨first, rest⟩ := same
      have tail : IsVector a.length a :=
        ⟨rfl, fun x hx => ha.numbered x (List.mem_cons_of_mem _ hx)⟩
      have next := ih tail rest
      have here : t.IsNonneg := by
        rw [Score.IsNonneg, ← ((Score.same_iff s t).mp first).1]
        exact ha.numbered s List.mem_cons_self
      refine ⟨?_, List.forall_mem_cons.mpr ⟨here, next.numbered⟩⟩
      rw [List.length_cons, next.length, ← List.length_cons, ha.length]

end Scores

namespace Path

variable {ok : Allowed}

def writeTo (v : Scores) (p : Path) : Scores := p.foldl (fun v x => v.set x.1 x.2) v

def premise (width : Nat) (p : Path) : Scores := p.writeTo (Scores.zeros width)

@[simp] theorem length_writeTo (v : Scores) (p : Path) : (p.writeTo v).length = v.length := by
  induction p generalizing v with
  | nil => rfl
  | cons x p ih => simpa [writeTo] using ih (v.set x.1 x.2)

@[simp] theorem length_premise (width : Nat) (p : Path) : (p.premise width).length = width := by
  simp [premise]

theorem set_of_gt (p : Path) (c : Nat) (t : Score) (h : ∀ x ∈ p, x.1 < c) :
    p.set c t = p ++ [(c, t)] := by
  induction p with
  | nil => rfl
  | cons x p ih =>
    have hx := h x List.mem_cons_self
    have rest := ih fun y hy => h y (List.mem_cons_of_mem _ hy)
    obtain ⟨d, s⟩ := x
    simp [set, show d < c from hx, rest]

theorem constraints_writeTo (nonzero : ok.Nonzero) {width first : Nat}
    (within : ok.Within width) {p : Path} (hp : p.Proper ok first) (v : Scores)
    (len : v.length = width) (front : ∀ x ∈ v.constraints, x.1 < first) :
    (p.writeTo v).constraints = v.constraints ++ p := by
  induction p generalizing v first with
  | nil => simp [writeTo]
  | cons x p ih =>
    obtain ⟨c, t⟩ := x
    have here : Scores.constraints (v.set c t) = v.constraints ++ [(c, t)] := by
      rw [Scores.constraints_set v c t (by rw [len]; exact within c t hp.2.1)
        (nonzero c t hp.2.1).ne_zero]
      apply set_of_gt _ c t
      intro y hy
      have := front y hy
      have := hp.1
      omega
    have rest := ih hp.2.2 (v.set c t) (by simpa using len) fun y hy => by
      rw [here, List.mem_append, List.mem_singleton] at hy
      rcases hy with hy | rfl
      · have := front y hy
        have := hp.1
        omega
      · exact Nat.lt_succ_self c
    rw [writeTo, List.foldl_cons]
    exact rest.trans (by rw [here, List.append_assoc, List.singleton_append])

theorem Proper.constraints_premise_of_nonzero (nonzero : ok.Nonzero) {width : Nat}
    (within : ok.Within width) {p : Path} (hp : p.Proper ok 0) :
    (p.premise width).constraints = p := by
  have written := constraints_writeTo nonzero within hp (Scores.zeros width) (by simp) (by simp)
  simpa [premise] using written

theorem Proper.constraints_premise (pos : ok.Positive) {width : Nat} (within : ok.Within width)
    {p : Path} (hp : p.Proper ok 0) : (p.premise width).constraints = p :=
  hp.constraints_premise_of_nonzero pos.nonzero within

theorem Proper.demand_premise (pos : ok.Positive) {width : Nat} (within : ok.Within width)
    {p : Path} (hp : p.Proper ok 0) (c : Nat) : (p.premise width).demand c = p.demand c := by
  rw [← Scores.demand_constraints, hp.constraints_premise pos within]

theorem Proper.premise_fits (pos : ok.Positive) {width : Nat} (within : ok.Within width)
    {p : Path} (hp : p.Proper ok 0) : (p.premise width).Fits ok := by
  apply Scores.fits_of_constraints_proper
  rw [hp.constraints_premise pos within]
  exact hp

theorem Proper.premise_numbered (pos : ok.Positive) {width : Nat} (within : ok.Within width)
    {p : Path} (hp : p.Proper ok 0) : (p.premise width).Numbered :=
  (hp.premise_fits pos within).numbered pos

theorem Proper.isVector (pos : ok.Positive) {width : Nat} (within : ok.Within width)
    {p : Path} (hp : p.Proper ok 0) : (p.premise width).IsVector width :=
  ⟨p.length_premise width, hp.premise_numbered pos within⟩

theorem Proper.isPremise (graded : ok.Graded) {width : Nat} (within : ok.Within width)
    {p : Path} (hp : p.Proper ok 0) : (p.premise width).IsPremise width :=
  ⟨p.length_premise width, (hp.premise_fits graded.positive within).inUnit graded⟩

theorem Proper.satisfies_premise_iff (pos : ok.Positive) {width : Nat} (within : ok.Within width)
    {p : Path} (hp : p.Proper ok 0) {v : Scores} (len : v.length = width)
    (numbered : v.Numbered) : v.satisfies (p.premise width) = true ↔ v.Reaches p := by
  rw [numbered.satisfies_iff (by simp [len])]
  exact forall_congr' fun c => by rw [hp.demand_premise pos within]

end Path

end MatchingDependencies
