import MatchingDependencies.Inference
import MatchingDependencies.Proofs.Lattice.Formed
import MatchingDependencies.Proofs.Setting

/-!
# What refuting a claim does to any lattice

A claim that a vector refutes is lowered to what the vector reaches, and its old
bound is claimed of the least specializations that exclude the vector. So
nothing is claimed that was not implied before, and nothing that the vector
reaches is claimed anew beyond what it shows.
-/

set_option autoImplicit false

namespace MatchingDependencies

open MatchingDependencies.Path (Allowed)
open MatchingDependencies.Lattice (Entails Grows Tracked)

namespace Inference

variable {ok : Allowed} {width : Nat} {q : Setting} {l l' l'' : Lattice} {p : Path} {i : Nat}
  {v s : Scores}

/-! ## Lowering one claim -/

structure Weakened (ok : Allowed) (width : Nat) (p : Path) (i : Nat) (l l' : Lattice) : Prop where
  formed : l'.Formed ok width
  tracked : Tracked l l'
  maxLevel : l'.maxLevel = l.maxLevel
  others : ∀ g j, ¬(g = p ∧ j = i) → l'.bound g j = l.bound g j
  noted : l'.Noted p.length

theorem weakened_withdrawn (hl : l.Formed ok width) (claimed : 0 < (l.bound p i).height) :
    Weakened ok width p i l ((l.setBound p i 0).markChanged p) ∧
      ((l.setBound p i 0).markChanged p).bound p i = 0 := by
  obtain ⟨-, stored, hi⟩ := hl.stored_of_bound claimed
  have unit : (0 : Score).inUnit = true := by decide
  have formed := hl.setBound (p := p) (i := i) unit
  have noted : ∀ k, ((l.setBound p i 0).markChanged p).Noted k ↔ p.length ≤ k ∨ l.Noted k :=
    fun k => by rw [formed.noted_markChanged, Lattice.noted_setBound]
  have bounds : ∀ g j, ((l.setBound p i 0).markChanged p).bound g j =
      if g = p ∧ j = i then 0 else l.bound g j := hl.bound_setBound stored hi
  have keeps : ClaimLattice.Keeps l.claims ((l.setBound p i 0).markChanged p).claims :=
    hl.keeps_setBound unit
  refine ⟨⟨formed.markChanged p, ⟨keeps, rfl, fun k hk => (noted k).mpr (.inr hk),
    fun g j differ => ?_⟩, l.maxLevel_setBound p i 0,
    fun g j other => (bounds g j).trans (if_neg other),
    (noted _).mpr (.inl (Nat.le_refl _))⟩, (bounds p i).trans (if_pos ⟨rfl, rfl⟩)⟩
  by_cases here : g = p ∧ j = i
  · exact (noted _).mpr (.inl (Nat.le_of_eq (by rw [here.1])))
  · exact absurd ((bounds g j).trans (if_neg here)) differ

theorem Weakened.claim (h : Weakened ok width p i l l') (stored : (l.find? p).isSome = true)
    (hi : i < width) {b : Score} (hb : b.inUnit = true) :
    Weakened ok width p i l (l'.setBound p i b) ∧ (l'.setBound p i b).bound p i = b := by
  have stored' := h.tracked.keeps.isSome stored
  have bounds := h.formed.bound_setBound (b := b) stored' hi
  have noted := Lattice.noted_setBound l' p i b
  refine ⟨⟨h.formed.setBound hb, ⟨h.tracked.keeps.trans (h.formed.keeps_setBound hb),
    h.tracked.unsupported, fun k hk => (noted k).mpr (h.tracked.noted k hk), fun g j differ => ?_⟩,
    (l'.maxLevel_setBound p i b).trans h.maxLevel, fun g j other => ?_, (noted _).mpr h.noted⟩,
    (bounds p i).trans (if_pos ⟨rfl, rfl⟩)⟩
  · by_cases here : g = p ∧ j = i
    · rw [noted, here.1]
      exact h.noted
    · rw [bounds, if_neg here] at differ
      exact absurd (h.others g j here) differ
  · rw [bounds, if_neg other]
    exact h.others g j other

theorem weaken_eq {b : Score} (lt : p.score i < b) :
    weaken l p i b =
      if ((((l.setBound p i 0).markChanged p).isImplied p b i).1) = true then
        (((l.setBound p i 0).markChanged p).isImplied p b i).2
      else (((l.setBound p i 0).markChanged p).isImplied p b i).2.setBound p i b := by
  rw [weaken, if_pos lt]
  cases ((l.setBound p i 0).markChanged p).isImplied p b i with
  | mk found l =>
    cases found with
    | true => rfl
    | false => rfl

def Informative (l : Lattice) (p : Path) (i : Nat) (b : Score) : Prop :=
  p.demand i < b.height ∧ ∀ g, g.Generalizes p → g ≠ p → (l.bound g i).height < b.height

/-- The bound that replaces a refuted one: what was reached if it is news, and
nothing otherwise. -/
def Replacement (l : Lattice) (p : Path) (i : Nat) (b new : Score) : Prop :=
  (Informative l p i b → new = b) ∧ (¬Informative l p i b → new = 0)

theorem Replacement.value {b new : Score} (h : Replacement l p i b new) :
    new = 0 ∨ p.demand i < b.height ∧ new = b := by
  by_cases news : Informative l p i b
  · exact .inr ⟨news.1, h.1 news⟩
  · exact .inl (h.2 news)

theorem Replacement.low {b : Score} (h : Replacement l p i (v.score i) b) (numbered : v.Numbered) :
    b.height ≤ v.demand i := by
  rcases h.value with zero | ⟨-, eq⟩
  · rw [zero, Score.height_zero]
    exact numbered.demand_nonneg i
  · exact Int.le_of_eq (congrArg Score.height eq)

theorem Weakened.implied_iff (h : Weakened ok width p i l l') (zero : l'.bound p i = 0) {b : Score}
    (hb : 0 < b.height) : l'.Implied p b.height i ↔
      ∃ g, g.Generalizes p ∧ g ≠ p ∧ b.height ≤ (l.bound g i).height := by
  constructor
  · rintro ⟨g, general, le⟩
    change b.height ≤ (l'.bound g i).height at le
    have other : g ≠ p := by
      rintro rfl
      rw [zero, Score.height_zero] at le
      omega
    exact ⟨g, general, other, h.others g i (fun here => other here.1) ▸ le⟩
  · rintro ⟨g, general, other, le⟩
    refine ⟨g, general, ?_⟩
    change b.height ≤ (l'.bound g i).height
    rwa [h.others g i fun here => other here.1]

theorem weaken_replaces (hl : l.Formed ok width) (claimed : 0 < (l.bound p i).height) {b : Score}
    (hb : b.inUnit = true) : Weakened ok width p i l (weaken l p i b) ∧
      Replacement l p i b ((weaken l p i b).bound p i) := by
  obtain ⟨proper, stored, hi⟩ := hl.stored_of_bound claimed
  have unit := (Score.inUnit_iff b).mp hb
  have top := Score.unitHeight_lt_top
  have low := proper.demand_nonneg hl.claims.positive i
  obtain ⟨withdrawn, zero⟩ := weakened_withdrawn hl claimed
  by_cases reached : p.demand i < b.height
  · rw [weaken_eq ((Score.lt_iff _ _).mpr ⟨reached, by omega⟩)]
    generalize (l.setBound p i 0).markChanged p = before at withdrawn zero
    have threshold : b.IsThreshold := ⟨by omega, unit.2⟩
    -- The claim itself was withdrawn, so only other generalizations are found.
    have check : (before.isImplied p b i).1 = true ↔
        ∃ g, g.Generalizes p ∧ g ≠ p ∧ b.height ≤ (l.bound g i).height :=
      (withdrawn.formed.claims.isImplied_iff proper threshold i).trans
        (withdrawn.implied_iff zero threshold.1)
    have weakened : Weakened ok width p i l (before.isImplied p b i).2 :=
      ⟨withdrawn.formed.isImplied p b i, ⟨withdrawn.tracked.keeps, withdrawn.tracked.unsupported,
        withdrawn.tracked.noted, withdrawn.tracked.changed⟩, withdrawn.maxLevel, withdrawn.others,
        withdrawn.noted⟩
    split
    · next found =>
      obtain ⟨g, general, other, le⟩ := check.mp found
      exact ⟨weakened, fun news => absurd le (Int.not_le.mpr (news.2 g general other)),
        fun _ => zero⟩
    · next missing =>
      obtain ⟨claim, bound⟩ := weakened.claim stored hi hb
      refine ⟨claim, fun _ => bound, fun known => absurd ⟨reached, fun g general other => ?_⟩ known⟩
      exact Int.not_le.mp fun le => missing (check.mpr ⟨g, general, other, le⟩)
  · have unchanged : weaken l p i b = (l.setBound p i 0).markChanged p := by
      rw [weaken, if_neg fun lt => reached ((Score.lt_iff _ _).mp lt).1]
    rw [unchanged]
    exact ⟨withdrawn, fun news => absurd news.1 reached, fun _ => zero⟩

theorem Weakened.implied (h : Weakened ok width p i l l') {b : Score}
    (replaced : Replacement l p i b (l'.bound p i)) (reached : p.demand i < b.height) :
    l'.Implied p b.height i := by
  by_cases news : Informative l p i b
  · exact ⟨p, .refl p, Int.le_of_eq (congrArg Score.height (replaced.1 news).symm)⟩
  · obtain ⟨g, general, other, le⟩ : ∃ g, g.Generalizes p ∧ g ≠ p ∧
        b.height ≤ (l.bound g i).height := by
      refine Classical.byContradiction fun none => news ⟨reached, fun g general other => ?_⟩
      exact Int.not_le.mp fun le => none ⟨g, general, other, le⟩
    refine ⟨g, general, ?_⟩
    change b.height ≤ (l'.bound g i).height
    rwa [h.others g i fun here => other here.1]

/-! ## Claiming the old bound -/

def claimSpecializations (q : Setting) (p : Path) (i : Nat) (b : Score) (failed : Path)
    (l : Lattice) : Lattice :=
  failed.foldl (fun l x =>
    if Traversal.mayClaim q x.1 x.2 i b then (l.addIfMinimalSupported (p.set x.1 x.2) b i).2
    else l) l

theorem claimSpecializations_grows (hp : p.Proper ok 0) {b : Score} (hb : b.IsThreshold)
    (hi : i < width) {failed : Path} (allowed : ∀ x ∈ failed, ok x.1 x.2)
    (hl : l.Formed ok width) :
    (claimSpecializations q p i b failed l).Formed ok width ∧
      Grows (fun g j c => j = i ∧ c = b ∧ ∃ x ∈ failed, g = p.set x.1 x.2 ∧
        Traversal.mayClaim q x.1 x.2 i b = true) l (claimSpecializations q p i b failed l) ∧
      ∀ x ∈ failed, Traversal.mayClaim q x.1 x.2 i b = true → ¬l.Dropped (p.set x.1 x.2) →
        (claimSpecializations q p i b failed l).Implied (p.set x.1 x.2) b.height i := by
  obtain ⟨formed, grows, implied⟩ := hl.foldl (fun l (x : Nat × Score) =>
      if Traversal.mayClaim q x.1 x.2 i b then (l.addIfMinimalSupported (p.set x.1 x.2) b i).2
      else l) failed
    (fun g j c => j = i ∧ c = b ∧ ∃ x ∈ failed, g = p.set x.1 x.2 ∧
      Traversal.mayClaim q x.1 x.2 i b = true)
    (fun x l => Traversal.mayClaim q x.1 x.2 i b = true → ¬l.Dropped (p.set x.1 x.2) →
      l.Implied (p.set x.1 x.2) b.height i)
    (fun l x hx hl => by
      have proper : (p.set x.1 x.2).Proper ok 0 := hp.set (Nat.zero_le _) (allowed x hx)
      obtain ⟨formed, grows, implied⟩ := hl.addIfMinimalSupported proper hb hi
      split
      · next may =>
        refine ⟨formed, grows.mono ?_, fun _ listed => implied fun dropped =>
          listed (grows.dropped_iff.mpr dropped)⟩
        rintro g j c ⟨rfl, rfl, rfl⟩
        exact ⟨rfl, rfl, x, hx, rfl, may⟩
      · next not => exact ⟨hl, .refl _ _, fun may => absurd may not⟩)
    fun x l l' grows reached may listed =>
      grows.implied (reached may fun dropped => listed (grows.dropped_iff.mpr dropped))
  exact ⟨formed, grows, fun x hx may listed => implied x hx may fun dropped =>
    listed (grows.dropped_iff.mp dropped)⟩

theorem not_reaches_next (hd : q.data.Sound) (len : v.length = q.data.width) (numbered : v.Numbered)
    {x : Nat × Score} (next : x ∈ Traversal.nextThresholds q.data v) (p : Path) :
    ¬v.Reaches (p.set x.1 x.2) := by
  intro reaches
  have higher := ((hd.mem_nextThresholds_iff len numbered x.1 x.2).mp next).2.1
  have demand := reaches x.1
  rw [Path.demand_set, if_pos rfl] at demand
  exact absurd demand (Int.not_le.mpr higher)

/-! ## Refuting one claim -/

def correctClaim (q : Setting) (v : Scores) (l : Lattice) (c : Path × Nat) : Lattice :=
  claimSpecializations q c.1 c.2 (l.bound c.1 c.2) (Traversal.nextThresholds q.data v)
    (weaken l c.1 c.2 (v.score c.2))

def Inherits (q : Setting) (v : Scores) (p : Path) (i : Nat) (b : Score) (g : Path) : Prop :=
  ∃ x ∈ Traversal.nextThresholds q.data v, g = p.set x.1 x.2 ∧
    Traversal.mayClaim q x.1 x.2 i b = true

/-- What correcting a claim does: the claim is replaced, no other claim that the
vector reaches is changed, and other claims are only raised by inheriting the
bound. -/
structure Corrects (ok : Allowed) (q : Setting) (v : Scores) (p : Path) (i : Nat)
    (l l' : Lattice) : Prop where
  formed : l'.Formed ok q.data.width
  tracked : Tracked l l'
  maxLevel : l'.maxLevel ≤ max l.maxLevel q.data.width
  replaced : Replacement l p i (v.score i) (l'.bound p i)
  kept : ∀ g j, v.Reaches g → (g, j) ≠ (p, i) → l'.bound g j = l.bound g j
  raises : ∀ g j, ¬v.Reaches g → (l.bound g j).height ≤ (l'.bound g j).height
  inherited : ∀ g j, ¬v.Reaches g → l'.bound g j ≠ l.bound g j →
    j = i ∧ l'.bound g j = l.bound p i ∧ Inherits q v p i (l.bound p i) g

/-- How a claim is changed when another one is refuted: the claim that is refuted
is lowered, and specializations that exclude the vector inherit its bound. -/
inductive Displaced (q : Setting) (v : Scores) (p : Path) (i : Nat) (l l' : Lattice) (g : Path)
    (j : Nat) : Prop
  | lowered (here : g = p ∧ j = i)
      (value : l'.bound g j = 0 ∨ g.demand j < v.demand j ∧ l'.bound g j = v.score j)
  | inherited (here : j = i) (old : l'.bound g j = l.bound p i)
      (heir : Inherits q v p i (l.bound p i) g)

namespace Corrects

theorem displaced (h : Corrects ok q v p i l l') {g : Path} {j : Nat}
    (differ : l'.bound g j ≠ l.bound g j) : Displaced q v p i l l' g j := by
  by_cases reaches : v.Reaches g
  · by_cases here : (g, j) = (p, i)
    · obtain ⟨rfl, rfl⟩ := Prod.mk.inj here
      exact .lowered ⟨rfl, rfl⟩ h.replaced.value
    · exact absurd (h.kept g j reaches here) differ
  · obtain ⟨here, old, heir⟩ := h.inherited g j reaches differ
    exact .inherited here old heir

theorem others (h : Corrects ok q v p i l l') (g : Path) {j : Nat} (other : j ≠ i) :
    l'.bound g j = l.bound g j := by
  refine Classical.byContradiction fun differ => ?_
  cases h.displaced differ with
  | lowered here _ => exact other here.2
  | inherited here _ _ => exact other here

theorem low (h : Corrects ok q v p i l l') (numbered : v.Numbered) :
    (l'.bound p i).height ≤ v.demand i :=
  h.replaced.low numbered

end Corrects

/-- What refuting claims does to a lattice: nothing is claimed that was not
implied before. -/
structure Reduced (ok : Allowed) (q : Setting) (l l' : Lattice) : Prop where
  formed : l'.Formed ok q.data.width
  tracked : Tracked l l'
  maxLevel : l'.maxLevel ≤ max l.maxLevel q.data.width
  entails : Entails l l'
  permitted : (∀ g i, 0 < (l.bound g i).height → q.Permits g i (l.bound g i).height) →
    ∀ g i, 0 < (l'.bound g i).height → q.Permits g i (l'.bound g i).height

namespace Reduced

theorem refl (hl : l.Formed ok q.data.width) : Reduced ok q l l :=
  ⟨hl, .refl l, Nat.le_max_left .., .refl l, fun h => h⟩

theorem trans (h : Reduced ok q l l') (h' : Reduced ok q l' l'') : Reduced ok q l l'' := by
  have first := h.maxLevel
  have second := h'.maxLevel
  exact ⟨h'.formed, h.tracked.trans h'.tracked, by omega, h.entails.trans h'.entails,
    fun before => h'.permitted (h.permitted before)⟩

end Reduced

section Refute

variable (hd : q.data.Sound) (natural : ∀ c t, q.data.Natural c t → ok c t)
  (len : v.length = q.data.width) (numbered : v.Numbered) (hl : l.Formed ok q.data.width)
  (above : v.demand i < (l.bound p i).height) (reaches : v.Reaches p)

include hd len numbered hl above reaches

include natural in
theorem corrects_correctClaim : Corrects ok q v p i l (correctClaim q v l (p, i)) := by
  have claimed := Int.lt_of_le_of_lt (numbered.demand_nonneg i) above
  obtain ⟨proper, -, hi⟩ := hl.stored_of_bound claimed
  obtain ⟨weakened, replaced⟩ :=
    weaken_replaces hl claimed (hl.inUnit_of_below numbered above)
  obtain ⟨formed, grows, -⟩ := claimSpecializations_grows (q := q) proper
    (hl.isThreshold_bound claimed) hi
    (fun _ next => natural _ _ (Dataset.natural_of_next (v := v) next))
    weakened.formed
  rw [correctClaim]
  dsimp only
  generalize weaken l p i (v.score i) = lowered at weakened replaced formed grows ⊢
  generalize claimSpecializations q p i _ _ lowered = after at formed grows ⊢
  have reached : ∀ g j, v.Reaches g → after.bound g j = lowered.bound g j := by
    refine fun g j shown => grows.bound_eq fun b added => ?_
    obtain ⟨-, -, x, hx, eq, -⟩ := added
    exact not_reaches_next hd len numbered hx p (eq ▸ shown)
  have others : ∀ g j, ¬v.Reaches g → lowered.bound g j = l.bound g j := fun g j fails =>
    weakened.others g j fun here => fails (here.1 ▸ reaches)
  refine ⟨formed, weakened.tracked.trans grows.tracked, ?_, ?_, fun g j shown other => ?_,
    fun g j fails => ?_, fun g j fails differ => ?_⟩
  · rw [← weakened.maxLevel, ← weakened.formed.width]
    exact grows.maxLevel
  · rw [reached p i reaches]
    exact replaced
  · rw [reached g j shown]
    exact weakened.others g j fun here => other (Prod.ext here.1 here.2)
  · rw [← others g j fails]
    exact grows.le g j
  · rw [← others g j fails] at differ
    obtain ⟨rfl, eq, x, hx, premise, may⟩ := (grows.changed g j differ).1
    exact ⟨rfl, eq, x, hx, premise, may⟩

theorem Corrects.reduced (corrects : Corrects ok q v p i l l') : Reduced ok q l l' := by
  have claimed := Int.lt_of_le_of_lt (numbered.demand_nonneg i) above
  have most := hl.isThreshold_bound claimed
  have next := fun x : Nat × Score => (hd.mem_nextThresholds_iff len numbered x.1 x.2).mp
  refine ⟨corrects.formed, corrects.tracked, corrects.maxLevel, fun g j positive => ?_,
    fun before g j positive => ?_⟩
  · by_cases same : l'.bound g j = l.bound g j
    · exact ⟨g, .refl g, Int.le_of_eq (congrArg Score.height same)⟩
    · cases corrects.displaced same with
      | lowered here _ =>
        obtain ⟨rfl, rfl⟩ := here
        exact ⟨g, .refl g, Int.le_trans (corrects.low numbered) (Int.le_of_lt above)⟩
      | inherited here old heir =>
        obtain rfl := here
        obtain ⟨x, hx, eq, -⟩ := heir
        have higher := Int.le_trans (reaches x.1) (Int.le_of_lt (next x hx).2.1)
        exact ⟨p, eq ▸ Path.generalizes_set higher, Int.le_of_eq (congrArg Score.height old)⟩
  · by_cases same : l'.bound g j = l.bound g j
    · rw [same] at positive ⊢
      exact before g j positive
    · have permitted := before p i claimed
      cases corrects.displaced same with
      | lowered here value =>
        obtain ⟨rfl, rfl⟩ := here
        rcases value with zero | ⟨less, eq⟩
        · rw [zero, Score.height_zero] at positive
          exact absurd positive (Int.lt_irrefl 0)
        · rw [eq]
          exact ⟨less, permitted.2⟩
      | inherited here old heir =>
        obtain rfl := here
        obtain ⟨x, hx, eq, may⟩ := heir
        rw [old, eq]
        exact (Setting.mayClaim_iff (hd.natural_positive _ _ (next x hx).1).1 most permitted).mp may

end Refute

end Inference

end MatchingDependencies
