import MatchingDependencies.Proofs.Lattice.Formed
import MatchingDependencies.Proofs.Setting
import MatchingDependencies.Proofs.Validation.Outcome

/-!
# What a correction does to any lattice

A validated candidate has its bounds lowered to what validation found, and the
old bounds are claimed of its least specializations. Whatever the lattice
claims, a bound is raised only where a generalization loses it, and only as far
as that one had claimed.
-/

set_option autoImplicit false

namespace MatchingDependencies

open MatchingDependencies.Path (Allowed)
open MatchingDependencies.Lattice (Grows)
open ClaimLattice (Keeps)

namespace Validation

theorem changes_run (d : Dataset) (minSupport : Nat) (l : Lattice) (c : Candidate) :
    ∀ k ∈ (run d minSupport l c).corrections, k.newBound.same k.oldBound = false := by
  intro k hk
  rw [run] at hk
  dsimp only at hk
  split at hk
  · obtain ⟨i, -, eq⟩ := List.mem_filterMap.mp hk
    dsimp only at eq
    split at eq
    · cases eq
    · next differ =>
      rw [← Option.some.inj eq]
      simpa using differ
  · obtain ⟨p, -, eq⟩ := List.mem_filterMap.mp hk
    rw [Probe.correction?] at eq
    split at eq
    · cases eq
    · next differ =>
      rw [← Option.some.inj eq]
      simpa using differ

end Validation

namespace Traversal

variable {ok : Allowed} {q : Setting} {validated l l' l'' : Lattice} {p g : Path} {c : Candidate}
  {v : Validation}

/-! ## Lowering the bounds -/

def lowerAll (l : Lattice) (c : Candidate) (v : Validation) : Lattice :=
  v.corrections.foldl (fun l k => l.setBound c.path k.index k.newBound) l

structure Sets (ok : Allowed) (width : Nat) (p : Path) (indices : Indices)
    (verdict : Nat → Option Correction) (l l' : Lattice) : Prop where
  formed : l'.Formed ok width
  keeps : Keeps l.claims l'.claims
  unsupported : l'.unsupported = l.unsupported
  maxLevel : l'.maxLevel = l.maxLevel
  noted : ∀ k, l'.Noted k ↔ l.Noted k
  bounds : ∀ g j, l'.bound g j =
    if g = p ∧ j ∈ indices then ((verdict j).map Correction.newBound).getD (l.bound g j)
    else l.bound g j

theorem sets_lowered (hl : l.Formed ok q.data.width) (stored : (l.find? p).isSome = true)
    (verdict : Nat → Option Correction) (indices : Indices)
    (facts : ∀ i ∈ indices, ∀ k, verdict i = some k → k.index = i ∧ i < q.data.width ∧
      k.newBound.inUnit = true) :
    Sets ok q.data.width p indices verdict l ((indices.filterMap verdict).foldl
      (fun l k => l.setBound p k.index k.newBound) l) := by
  induction indices generalizing l with
  | nil => exact ⟨hl, .refl _, rfl, rfl, fun _ => Iff.rfl, fun g j => by simp⟩
  | cons i indices ih =>
    have rest := fun l hl stored => ih (l := l) hl stored
      fun j hj => facts j (List.mem_cons_of_mem _ hj)
    cases h : verdict i with
    | none =>
      rw [List.filterMap_cons_none h]
      have sets := rest l hl stored
      refine ⟨sets.formed, sets.keeps, sets.unsupported, sets.maxLevel, sets.noted, fun g j => ?_⟩
      rw [sets.bounds]
      by_cases here : j = i
      · subst here
        simp [h]
      · simp [here]
    | some k =>
      obtain ⟨index, hi, unit⟩ := facts i List.mem_cons_self k h
      have first := hl.bound_setBound (b := k.newBound) stored hi
      have kept := hl.keeps_setBound (p := p) (i := i) unit
      have sets := rest _ (hl.setBound unit) (kept.isSome stored)
      rw [List.filterMap_cons_some h, List.foldl_cons, index]
      refine ⟨sets.formed, kept.trans sets.keeps, sets.unsupported,
        sets.maxLevel.trans (l.maxLevel_setBound p i _),
        fun m => (sets.noted m).trans (Lattice.noted_setBound l p i _ m), fun g j => ?_⟩
      rw [sets.bounds, first]
      by_cases here : j = i
      · subst here
        by_cases same : g = p
        · subst same
          -- A column match that is listed again gets the same verdict.
          by_cases again : j ∈ indices <;> simp [again, h]
        · simp [same]
      · simp [here]

/-! ## Claiming the old bounds -/

def Inherits (q : Setting) (corrections : List Correction) (p : Path) (x : Nat × Score) (g : Path)
    (j : Nat) (b : Score) : Prop :=
  g = p.set x.1 x.2 ∧ ∃ k ∈ corrections, k.index = j ∧ k.oldBound = b ∧
    mayClaim q x.1 x.2 k.index k.oldBound = true

def Bounded (width : Nat) (corrections : List Correction) : Prop :=
  ∀ k ∈ corrections, k.oldBound.IsThreshold ∧ k.index < width

theorem foldl_specialize_nil (q : Setting) (p xs : Path) (l : Lattice) :
    xs.foldl (specialize q [] p) l = l := by
  induction xs with
  | nil => rfl
  | cons x xs ih =>
    have same : specialize q [] p l x = l := by simp [specialize]
    rw [List.foldl_cons, same, ih]

theorem specialize_grows (hp : p.Proper ok 0) {corrections : List Correction}
    (bounded : Bounded q.data.width corrections) {x : Nat × Score} (hx : ok x.1 x.2)
    (hl : l.Formed ok q.data.width) :
    (specialize q corrections p l x).Formed ok q.data.width ∧
      Grows (Inherits q corrections p x) l (specialize q corrections p l x) ∧
        ∀ k ∈ corrections, mayClaim q x.1 x.2 k.index k.oldBound = true →
          ¬l.Dropped (p.set x.1 x.2) →
            (specialize q corrections p l x).Implied (p.set x.1 x.2) k.oldBound.height k.index := by
  obtain ⟨column, threshold⟩ := x
  have proper : (p.set column threshold).Proper ok 0 := hp.set (Nat.zero_le _) hx
  rw [specialize]
  dsimp only
  split
  · next marked =>
    exact ⟨hl, .refl _ _, fun _ _ _ listed =>
      absurd ((hl.isUnsupported_iff proper).mp marked) listed⟩
  · next listed =>
    -- What was implied stays so, since each correction only claims more.
    obtain ⟨formed, grows, implied⟩ := hl.foldl (fun l (k : Correction) =>
        if mayClaim q column threshold k.index k.oldBound then
          (l.addIfMinimal (p.set column threshold) k.oldBound k.index).2
        else l) corrections (Inherits q corrections p (column, threshold))
      (fun k l => mayClaim q column threshold k.index k.oldBound = true →
        l.Implied (p.set column threshold) k.oldBound.height k.index)
      (fun l k hk hl => by
        obtain ⟨isThreshold, hi⟩ := bounded k hk
        split
        · next may =>
          have added := hl.addIfMinimal proper isThreshold hi
          refine ⟨added.1, added.2.1.mono ?_, fun _ => added.2.2⟩
          rintro g j b ⟨rfl, rfl, rfl⟩
          exact ⟨rfl, k, hk, rfl, rfl, may⟩
        · next not => exact ⟨hl, .refl _ _, fun may => absurd may not⟩)
      fun k l l' grows reached may => grows.implied (reached may)
    exact ⟨formed, grows, fun k hk may _ => implied k hk may⟩

theorem specializeAll_grows (hp : p.Proper ok 0) {corrections : List Correction}
    (bounded : Bounded q.data.width corrections) {thresholds : Path}
    (allowed : ∀ x ∈ thresholds, ok x.1 x.2) (hl : l.Formed ok q.data.width) :
    (thresholds.foldl (specialize q corrections p) l).Formed ok q.data.width ∧
      Grows (fun g j b => ∃ x ∈ thresholds, Inherits q corrections p x g j b) l
        (thresholds.foldl (specialize q corrections p) l) ∧
      ∀ x ∈ thresholds, ∀ k ∈ corrections, mayClaim q x.1 x.2 k.index k.oldBound = true →
        ¬l.Dropped (p.set x.1 x.2) →
          (thresholds.foldl (specialize q corrections p) l).Implied (p.set x.1 x.2)
            k.oldBound.height k.index := by
  have all := hl.foldl (specialize q corrections p) thresholds
    (fun g j b => ∃ x ∈ thresholds, Inherits q corrections p x g j b)
    (fun x l' => ∀ k ∈ corrections,
      mayClaim q x.1 x.2 k.index k.oldBound = true → ¬l'.Dropped (p.set x.1 x.2) →
        l'.Implied (p.set x.1 x.2) k.oldBound.height k.index)
    (fun l x hx hl => by
      obtain ⟨formed, grows, implied⟩ := specialize_grows hp bounded (allowed x hx) hl
      exact ⟨formed, grows.mono fun g j b inherits => ⟨x, hx, inherits⟩, fun k hk may listed =>
        implied k hk may fun dropped => listed (grows.dropped_iff.mpr dropped)⟩)
    fun x l l' grows reached k hk may listed =>
      grows.implied (reached k hk may fun dropped => listed (grows.dropped_iff.mpr dropped))
  obtain ⟨formed, grows, implied⟩ := all
  exact ⟨formed, grows, fun x hx k hk may listed =>
    implied x hx k hk may fun dropped => listed (grows.dropped_iff.mp dropped)⟩

/-! ## Correcting a candidate -/

/-- What is known of a candidate that was validated on one lattice and is to be
corrected on another: its bounds are still the same. -/
structure Live (ok : Allowed) (width : Nat) (validated l : Lattice) (c : Candidate) : Prop where
  proper : c.path.Proper ok 0
  premise : c.premise = c.path.premise width
  stored : (l.find? c.path).isSome = true
  claimed : ∀ i ∈ c.indices, 0 < (validated.bound c.path i).height
  same : ∀ i ∈ c.indices, l.bound c.path i = validated.bound c.path i

def SettledAt (q : Setting) (validated l : Lattice) (c : Candidate) : Prop :=
  (¬q.Supports c.path → l.Dropped c.path) ∧ ∀ i ∈ c.indices, q.Supports c.path →
    Settles (Validation.floorHeight validated c.premise i) (validated.bound c.path i).height
      (l.bound c.path i).height (Probe.Similarities i (q.data.Shows c.path))

/-- How the correction of a candidate changes a claim: the candidate itself has
its bounds lowered, and its specializations inherit what it loses. -/
inductive Change (q : Setting) (l l' : Lattice) (c : Candidate) (g : Path) (i : Nat) : Prop
  | lowered (here : c.path = g)
      (reason : ¬q.Supports g ∧ l'.Dropped g ∧ l'.bound g i = 0 ∨ i ∈ c.indices)
      (le : (l'.bound g i).height ≤ (l.bound g i).height)
      (value : (l'.bound g i).height = 0 ∨ g.demand i < (l'.bound g i).height ∧
        ∃ w ∈ q.data.pairProfiles, w.demand i = (l'.bound g i).height)
  | inherited (general : c.path.Generalizes g) (other : c.path ≠ g) (asked : i ∈ c.indices)
      (lost : (l'.bound c.path i).height < (l.bound c.path i).height)
      (old : l'.bound g i = l.bound c.path i)
      (permits : q.Permits c.path i (l.bound c.path i).height →
        q.Permits g i (l.bound c.path i).height)
      (noted : l'.Noted g.length)

/-- What the correction of some candidates does to a lattice. -/
structure Reworked (ok : Allowed) (q : Setting) (batch : List Candidate) (l l' : Lattice) :
    Prop where
  formed : l'.Formed ok q.data.width
  keeps : Keeps l.claims l'.claims
  maxLevel : l'.maxLevel ≤ max l.maxLevel q.data.width
  marks : ∀ m, l.unsupported.Marked m → l'.unsupported.Marked m
  marked : ∀ m, l'.unsupported.Marked m → l.unsupported.Marked m ∨ ¬q.Supports m
  noted : ∀ k, l.Noted k → l'.Noted k
  change : ∀ g i, l'.bound g i ≠ l.bound g i → ∃ c ∈ batch, Change q l l' c g i

namespace Reworked

variable {batch : List Candidate} (h : Reworked ok q batch l l') {i : Nat}

include h

theorem dropped (dropped : l.Dropped p) : l'.Dropped p := by
  obtain ⟨m, marked, general⟩ := dropped
  exact ⟨m, h.marks m marked, general⟩

theorem raised (rise : (l.bound g i).height < (l'.bound g i).height) : l'.Noted g.length ∧
    ∃ c ∈ batch, c.path.Generalizes g ∧ c.path ≠ g ∧ i ∈ c.indices ∧
      (l'.bound c.path i).height < (l.bound c.path i).height ∧
        l'.bound g i = l.bound c.path i := by
  obtain ⟨c, hc, change⟩ := h.change g i fun same => by
    rw [same] at rise
    exact Int.lt_irrefl _ rise
  cases change with
  | lowered _ _ le _ => exact absurd rise (Int.not_lt.mpr le)
  | inherited general other asked lost old _ noted =>
    exact ⟨noted, c, hc, general, other, asked, lost, old⟩

theorem changed (differ : l'.bound g i ≠ l.bound g i) :
    l'.Noted g.length ∨ l'.Dropped g ∨ ∃ c ∈ batch, c.path = g ∧ i ∈ c.indices := by
  obtain ⟨c, hc, change⟩ := h.change g i differ
  cases change with
  | lowered here reason _ _ =>
    rcases reason with ⟨-, dropped, -⟩ | asked
    · exact .inr (.inl dropped)
    · exact .inr (.inr ⟨c, hc, here, asked⟩)
  | inherited _ _ _ _ _ _ noted => exact .inl noted

theorem places (differ : l'.bound g i ≠ l.bound g i) :
    ∃ c ∈ batch, c.path = g ∧ ¬q.Supports g ∨ c.path.Generalizes g ∧ i ∈ c.indices := by
  obtain ⟨c, hc, change⟩ := h.change g i differ
  refine ⟨c, hc, ?_⟩
  cases change with
  | lowered here reason _ _ =>
    rcases reason with ⟨few, -, -⟩ | asked
    · exact .inl ⟨here, few⟩
    · exact .inr ⟨here ▸ .refl _, asked⟩
  | inherited general _ asked _ _ _ _ => exact .inr ⟨general, asked⟩

theorem values (g : Path) (i : Nat) : (l'.bound g i).height = 0 ∨
    (∃ w ∈ q.data.pairProfiles, w.demand i = (l'.bound g i).height) ∨
      ∃ g', l'.bound g i = l.bound g' i := by
  by_cases same : l'.bound g i = l.bound g i
  · exact .inr (.inr ⟨g, same⟩)
  · obtain ⟨c, -, change⟩ := h.change g i same
    cases change with
    | lowered _ _ _ value =>
      rcases value with zero | ⟨-, seen⟩
      · exact .inl zero
      · exact .inr (.inl seen)
    | inherited _ _ _ _ old _ _ => exact .inr (.inr ⟨c.path, old⟩)

theorem entails : Lattice.Entails l l' := by
  intro g i _
  by_cases rise : (l.bound g i).height < (l'.bound g i).height
  · obtain ⟨-, c, -, general, -, -, -, old⟩ := h.raised rise
    exact ⟨c.path, general, Int.le_of_eq (congrArg Score.height old)⟩
  · exact ⟨g, .refl g, Int.not_lt.mp rise⟩

theorem permitted (before : ∀ g i, 0 < (l.bound g i).height → q.Permits g i (l.bound g i).height)
    (g : Path) (i : Nat) (positive : 0 < (l'.bound g i).height) :
    q.Permits g i (l'.bound g i).height := by
  by_cases same : l'.bound g i = l.bound g i
  · rw [same] at positive ⊢
    exact before g i positive
  · obtain ⟨c, -, change⟩ := h.change g i same
    cases change with
    | lowered _ _ le value =>
      rcases value with zero | ⟨above, -⟩
      · omega
      · exact ⟨above, (before g i (by omega)).2⟩
    | inherited _ _ _ _ old permits _ =>
      rw [old] at positive ⊢
      exact permits (before c.path i positive)

end Reworked

structure Settled (ok : Allowed) (q : Setting) (validated l : Lattice) (c : Candidate)
    (v : Validation) (lowered : Lattice) : Prop where
  formed : lowered.Formed ok q.data.width
  keeps : Keeps l.claims lowered.claims
  unsupported : lowered.unsupported = l.unsupported
  maxLevel : lowered.maxLevel = l.maxLevel
  noted : ∀ k, lowered.Noted k ↔ l.Noted k
  others : ∀ g j, ¬(g = c.path ∧ j ∈ c.indices) → lowered.bound g j = l.bound g j
  changed : ∀ g i, lowered.bound g i ≠ l.bound g i → g = c.path ∧ ∃ k ∈ v.corrections, k.index = i
  corrected : ∀ k ∈ v.corrections, (∀ k ∈ v.corrections, k.newBound.same k.oldBound = false) →
    (lowered.bound c.path k.index).height < (l.bound c.path k.index).height
  settles : ∀ i ∈ c.indices, Settles (Validation.floorHeight validated c.premise i)
    (validated.bound c.path i).height (lowered.bound c.path i).height
      (Probe.Similarities i (q.data.Shows c.path))

section Correct

variable (hd : q.data.Sound) (natural : ∀ c t, q.data.Natural c t → ok c t)
  (hv : v.Sound q.data q.minSupport validated c) (h : Live ok q.data.width validated l c)
  (h₀ : validated.Formed ok q.data.width) (hl : l.Formed ok q.data.width)

include h

theorem Live.length_premise : c.premise.length = q.data.width := by
  rw [h.premise]
  exact Path.length_premise ..

include h₀ in
theorem Live.premise_numbered : c.premise.Numbered := by
  rw [h.premise]
  exact h.proper.premise_numbered h₀.claims.positive h₀.within

include hd h₀ in
theorem Live.shows : (fun w => w ∈ q.data.pairProfiles ∧ w.satisfies c.premise = true) =
    q.data.Shows c.path := by
  funext w
  apply propext
  apply and_congr_right
  intro hw
  rw [h.premise]
  exact h.proper.satisfies_premise_iff h₀.claims.positive h₀.within
    (q.data.length_of_mem_pairProfiles hw) (hd.numbered_of_mem hw)

include hv in
theorem Live.isUnsupported_iff : v.isUnsupported = true ↔ ¬q.Supports c.path := by
  rw [hv.unsupported, Setting.Supports, ← h.premise, Nat.not_le]

include hd hv h₀

theorem Live.exists_verdict : ∃ verdict : Nat → Option Correction,
    v.corrections = c.indices.filterMap verdict ∧ ∀ i ∈ c.indices,
      (∀ k, verdict i = some k → k.index = i ∧ k.oldBound = validated.bound c.path i ∧
        k.newBound.inUnit = true) ∧
      Settles (Validation.floorHeight validated c.premise i) (validated.bound c.path i).height
        (((verdict i).map Correction.newBound).getD (validated.bound c.path i)).height
        (Probe.Similarities i (q.data.Shows c.path)) := by
  obtain ⟨verdict, eq, all⟩ := hv.verdicts
  refine ⟨verdict, eq, fun i hi => ?_⟩
  have here := all i hi
  rw [← h.shows hd h₀]
  cases hk : verdict i with
  | none =>
    rw [hk] at here
    exact ⟨fun k other => (nomatch other), here⟩
  | some k =>
    rw [hk] at here
    obtain ⟨index, old, unit, settles⟩ := here
    refine ⟨fun k' same => ?_, settles⟩
    obtain rfl := Option.some.inj same
    exact ⟨index, old, unit⟩

theorem Live.mem_corrections {k : Correction} (hk : k ∈ v.corrections) :
    k.index ∈ c.indices ∧ k.oldBound = validated.bound c.path k.index := by
  obtain ⟨verdict, eq, all⟩ := h.exists_verdict hd hv h₀
  obtain ⟨i, hi, found⟩ := List.mem_filterMap.mp (eq ▸ hk)
  obtain ⟨rfl, old, -⟩ := (all i hi).1 k found
  exact ⟨hi, old⟩

theorem Live.bounded_corrections : Bounded q.data.width v.corrections := by
  intro k hk
  obtain ⟨hi, old⟩ := h.mem_corrections hd hv h₀ hk
  have claimed := h.claimed k.index hi
  rw [old]
  exact ⟨h₀.isThreshold_bound claimed, (h₀.stored_of_bound claimed).2.2⟩

include hl in
theorem Live.lowered : Settled ok q validated l c v (lowerAll l c v) := by
  obtain ⟨verdict, eq, all⟩ := h.exists_verdict hd hv h₀
  have sets := sets_lowered hl h.stored verdict c.indices
    fun i hi k hk => by
      obtain ⟨index, -, unit⟩ := (all i hi).1 k hk
      exact ⟨index, (h₀.stored_of_bound (h.claimed i hi)).2.2, unit⟩
  rw [← eq] at sets
  change Sets ok q.data.width c.path c.indices verdict l (lowerAll l c v) at sets
  have settles : ∀ i ∈ c.indices, Settles (Validation.floorHeight validated c.premise i)
      (validated.bound c.path i).height ((lowerAll l c v).bound c.path i).height
        (Probe.Similarities i (q.data.Shows c.path)) := by
    intro i hi
    rw [sets.bounds, if_pos ⟨rfl, hi⟩, h.same i hi]
    exact (all i hi).2
  refine ⟨sets.formed, sets.keeps, sets.unsupported, sets.maxLevel, sets.noted, fun g j other => ?_,
    fun g i differ => ?_, fun k hk changes => ?_, settles⟩
  · rw [sets.bounds, if_neg other]
  · rw [sets.bounds] at differ
    by_cases here : g = c.path ∧ i ∈ c.indices
    · refine ⟨here.1, ?_⟩
      cases found : verdict i with
      | none => simp [found] at differ
      | some k =>
        exact ⟨k, eq ▸ List.mem_filterMap.mpr ⟨i, here.2, found⟩, ((all i here.2).1 k found).1⟩
    · exact absurd (if_neg here) differ
  · obtain ⟨i, hi, found⟩ := List.mem_filterMap.mp (eq ▸ hk)
    obtain ⟨rfl, old, unit⟩ := (all i hi).1 k found
    have claimed := h.claimed k.index hi
    have bound : (lowerAll l c v).bound c.path k.index = k.newBound := by
      rw [sets.bounds, if_pos ⟨rfl, hi⟩, found]
      rfl
    have le := (settles k.index hi).le (Int.le_of_lt claimed)
    have most := h₀.bound_le c.path k.index
    have top := Score.unitHeight_lt_top
    have differ := changes k hk
    rw [← Bool.not_eq_true, Score.same_iff, old] at differ
    rw [bound] at le ⊢
    rw [h.same _ hi]
    omega

variable (changes : ∀ k ∈ v.corrections, k.newBound.same k.oldBound = false)

omit hd hv in
theorem Live.change_lowered {lowered : Lattice} (low : Settled ok q validated l c v lowered)
    {i : Nat}
    (differ : lowered.bound g i ≠ l.bound g i) : g = c.path ∧ i ∈ c.indices ∧
      (lowered.bound g i).height ≤ (l.bound g i).height ∧
        ((lowered.bound g i).height = 0 ∨ g.demand i < (lowered.bound g i).height ∧
          ∃ w ∈ q.data.pairProfiles, w.demand i = (lowered.bound g i).height) := by
  by_cases here : g = c.path ∧ i ∈ c.indices
  · obtain ⟨rfl, hi⟩ := here
    have demand : c.path.demand i = c.premise.demand i := Scores.demand_constraints c.premise i
    have settles := low.settles i hi
    have le := settles.le (h₀.bound_nonneg _ i)
    rw [h.same i hi] at differ ⊢
    refine ⟨rfl, hi, le, ?_⟩
    rcases settles with ⟨zero, -⟩ | ⟨above, -, -, old | ⟨w, shown, eq⟩⟩
    · exact .inl zero
    · exact absurd ((h₀.isThreshold_bound (h.claimed i hi)).ext old) differ
    · rw [Validation.floorHeight] at above
      exact .inr ⟨by omega, w, shown.1, eq⟩
  · exact absurd (low.others g i here) differ

include hl

omit changes in
theorem Live.reworked_of_unsupported (few : ¬q.Supports c.path) :
    Reworked ok q [c] l (correct q l c v) ∧ SettledAt q validated (correct q l c v) c ∧
      ∀ g i, (correct q l c v).bound g i = if g = c.path then 0 else l.bound g i := by
  have low := h.lowered hd hv h₀ hl
  have result : correct q l c v = (lowerAll l c v).markUnsupported c.path := by
    rw [correct, if_pos ((h.isUnsupported_iff hv).mpr few)]
    rfl
  generalize lowerAll l c v = lowered at low result
  have bounds := low.formed.bound_markUnsupported c.path
  have marks := low.formed.marked_markUnsupported h.proper
  have dropped : (lowered.markUnsupported c.path).Dropped c.path :=
    ⟨c.path, (marks _).mpr (.inl rfl), .refl _⟩
  rw [result]
  refine ⟨⟨low.formed.markUnsupported h.proper,
    low.keeps.trans (low.formed.keeps_markUnsupported c.path), ?_, fun m marked => ?_,
    fun m marked => ?_, fun k hk => ?_, fun g i differ => ?_⟩,
    ⟨fun _ => dropped, fun i hi supported => absurd supported few⟩, fun g i => ?_⟩
  · rw [Lattice.maxLevel_markUnsupported, low.maxLevel]
    exact Nat.le_max_left ..
  · exact (marks m).mpr (.inr (low.unsupported ▸ marked))
  · rcases (marks m).mp marked with rfl | marked
    · exact .inr few
    · exact .inl (low.unsupported ▸ marked)
  · exact (Lattice.noted_markUnsupported lowered c.path k).mpr ((low.noted k).mpr hk)
  · by_cases here : g = c.path
    · obtain rfl := here
      have zero := (bounds c.path i).trans (if_pos rfl)
      refine ⟨c, List.mem_singleton_self c, .lowered rfl (.inl ⟨few, dropped, zero⟩) ?_ ?_⟩
      · rw [zero, Score.height_zero]
        exact hl.bound_nonneg _ i
      · rw [zero]
        exact .inl Score.height_zero
    · rw [bounds, if_neg here, low.others g i fun place => here place.1] at differ
      exact absurd rfl differ
  · rw [bounds]
    split
    · rfl
    · next other => exact low.others g i fun place => other place.1

include natural

omit changes in
theorem Live.specialized (supported : q.Supports c.path) :
    (correct q l c v).Formed ok q.data.width ∧
      Grows (fun g j b => ∃ x ∈ nextThresholds q.data c.premise,
        Inherits q v.corrections c.path x g j b) (lowerAll l c v) (correct q l c v) ∧
      ∀ x ∈ nextThresholds q.data c.premise, ∀ k ∈ v.corrections,
        mayClaim q x.1 x.2 k.index k.oldBound = true → ¬l.Dropped (c.path.set x.1 x.2) →
          (correct q l c v).Implied (c.path.set x.1 x.2) k.oldBound.height k.index := by
  have low := h.lowered hd hv h₀ hl
  have result : correct q l c v = (nextThresholds q.data c.premise).foldl
      (specialize q v.corrections c.path) (lowerAll l c v) := by
    rw [correct, if_neg fun marked => (h.isUnsupported_iff hv).mp marked supported]
    rfl
  obtain ⟨formed, grows, implied⟩ := specializeAll_grows h.proper (h.bounded_corrections hd hv h₀)
    (fun _ next => natural _ _ (Dataset.natural_of_next next)) low.formed
  rw [← result] at formed grows implied
  refine ⟨formed, grows, fun x hx k hk may listed => implied x hx k hk may fun dropped => listed ?_⟩
  rw [Lattice.Dropped, low.unsupported] at dropped
  exact dropped

include changes

theorem Live.reworked_of_supported (supported : q.Supports c.path) :
    Reworked ok q [c] l (correct q l c v) ∧ SettledAt q validated (correct q l c v) c ∧
      ∀ k ∈ v.corrections,
        ((correct q l c v).bound c.path k.index).height < (l.bound c.path k.index).height := by
  have low := h.lowered hd hv h₀ hl
  obtain ⟨formed, grows, -⟩ := h.specialized hd natural hv h₀ hl supported
  generalize correct q l c v = raised at formed grows
  generalize lowerAll l c v = lowered at low grows
  -- what is claimed anew stands above the candidate
  have above : ∀ g j b, (∃ x ∈ nextThresholds q.data c.premise,
      Inherits q v.corrections c.path x g j b) → c.path.Generalizes g ∧ c.path ≠ g ∧
        ∃ k ∈ v.corrections, k.index = j ∧ k.oldBound = b ∧
          (q.Permits c.path j b.height → q.Permits g j b.height) := by
    rintro g j b ⟨x, hx, rfl, k, hk, rfl, rfl, may⟩
    obtain ⟨natural, higher, -⟩ :=
      (hd.mem_nextThresholds_iff h.length_premise (h.premise_numbered h₀) x.1 x.2).mp hx
    rw [← Scores.demand_constraints] at higher
    have threshold := (h.bounded_corrections hd hv h₀ k hk).1
    exact ⟨Path.generalizes_set (Int.le_of_lt higher), Path.ne_set higher, k, hk, rfl, rfl,
      fun permitted => (Setting.mayClaim_iff (hd.natural_positive _ _ natural).1 threshold
        permitted).mp may⟩
  have itself : ∀ i, raised.bound c.path i = lowered.bound c.path i := fun i =>
    grows.bound_eq fun b inherits => (above c.path i b inherits).2.1 rfl
  have lost : ∀ k ∈ v.corrections,
      (raised.bound c.path k.index).height < (l.bound c.path k.index).height := by
    intro k hk
    rw [itself]
    exact low.corrected k hk changes
  refine ⟨⟨formed, low.keeps.trans grows.keeps, ?_, fun m marked => ?_, fun m marked => .inl ?_,
    fun k hk => grows.noted k ((low.noted k).mpr hk), fun g i differ => ?_⟩,
    ⟨fun few => absurd supported few, fun i hi _ => ?_⟩, lost⟩
  · rw [← low.maxLevel, ← low.formed.width]
    exact grows.maxLevel
  · rw [grows.unsupported, low.unsupported]
    exact marked
  · rwa [grows.unsupported, low.unsupported] at marked
  · refine ⟨c, List.mem_singleton_self c, ?_⟩
    by_cases same : raised.bound g i = lowered.bound g i
    · rw [same] at differ
      obtain ⟨rfl, hi, le, value⟩ := h.change_lowered h₀ low differ
      exact .lowered rfl (.inr hi) (same ▸ le) (same ▸ value)
    · obtain ⟨inherits, noted⟩ := grows.changed g i same
      obtain ⟨general, other, k, hk, rfl, old, permits⟩ := above g i _ inherits
      obtain ⟨hi, bound⟩ := h.mem_corrections hd hv h₀ hk
      have eq : raised.bound g k.index = l.bound c.path k.index := by
        rw [← old, bound, h.same _ hi]
      rw [eq] at permits
      exact .inherited general other hi (lost k hk) eq permits noted
  · rw [itself]
    exact low.settles i hi

/-- Correcting a candidate settles it. If validation changes anything, then a
claim of the candidate is lost, and otherwise the lattice stays. -/
theorem Live.reworked (some : c.indices ≠ []) :
    Reworked ok q [c] l (correct q l c v) ∧ SettledAt q validated (correct q l c v) c ∧
      (v.corrections = [] ∧ correct q l c v = l ∨ ∃ i ∈ c.indices,
        ((correct q l c v).bound c.path i).height < (l.bound c.path i).height) := by
  by_cases supported : q.Supports c.path
  · obtain ⟨reworked, settled, lost⟩ :=
      h.reworked_of_supported hd natural hv h₀ hl changes supported
    refine ⟨reworked, settled, ?_⟩
    cases eq : v.corrections with
    | nil =>
      refine .inl ⟨rfl, ?_⟩
      rw [correct, if_neg fun marked => (h.isUnsupported_iff hv).mp marked supported, eq]
      exact foldl_specialize_nil q _ _ l
    | cons k rest =>
      have hk : k ∈ v.corrections := eq ▸ List.mem_cons_self
      exact .inr ⟨k.index, (h.mem_corrections hd hv h₀ hk).1, lost k hk⟩
  · obtain ⟨reworked, settled, zero⟩ := h.reworked_of_unsupported hd hv h₀ hl supported
    obtain ⟨i, hi⟩ := List.exists_mem_of_ne_nil _ some
    refine ⟨reworked, settled, .inr ⟨i, hi, ?_⟩⟩
    rw [zero, if_pos rfl, Score.height_zero, h.same i hi]
    exact h.claimed i hi

end Correct

end Traversal

end MatchingDependencies
