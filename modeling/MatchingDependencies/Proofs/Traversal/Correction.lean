import MatchingDependencies.Proofs.Coverage
import MatchingDependencies.Proofs.Traversal.BatchReworking

/-!
# Correcting candidates loses nothing

A validated candidate has its bounds lowered to what validation found, and the
old bounds are claimed of its least specializations. An admissible bound that
an old one implied belongs to the premise itself, and then the new bound or a
generalization implies it, or to a specialization. No correction of a batch
touches a claim of another candidate or what it inherits, since no column match
is asked for at two comparable premises. So each correction finds the lattice
as validation has seen it.
-/

set_option autoImplicit false

namespace MatchingDependencies

namespace Traversal

variable {q : Setting} {validated l l' : Lattice} {batch : List Candidate} {c : Candidate}
  {v : Validation}

theorem Reworked.sound (h : Reworked q.data.Natural q batch l l') (hl : l.Sound q) :
    l'.Sound q := by
  refine ⟨h.formed.claims, h.formed.width, h.formed.cost, h.formed.marks, fun m marked => ?_,
    h.permitted hl.permitted⟩
  rcases h.marked m marked with before | few
  · exact hl.unsupported m before
  · exact few

/-- What is known of a candidate that was validated on one lattice and is to be
corrected on another: its bounds are still the same, and the bounds that were
inherited are not lower. -/
structure Current (q : Setting) (validated l : Lattice) (c : Candidate) : Prop where
  live : Live q.data.Natural q.data.width validated l c
  inherited : ∀ i ∈ c.indices, ∀ g, g.Generalizes c.path → g ≠ c.path → q.Supports g →
    (validated.bound g i).height ≤ (l.bound g i).height

/-! ## One candidate -/

section Correct

variable (hd : q.data.Sound) (h : Current q validated l c) (h₀ : validated.Sound q)

include hd h h₀

theorem Current.implied_of_settles {i : Nat} (hi : i ∈ c.indices) {height : Int}
    (admissible : q.Admissible c.path i height)
    (le : height ≤ (validated.bound c.path i).height)
    (settles : Settles (Validation.floorHeight validated c.premise i)
      (validated.bound c.path i).height (l'.bound c.path i).height
        (Probe.Similarities i (q.data.Shows c.path)))
    (kept : ∀ g, g ≠ c.path → (l.bound g i).height ≤ (l'.bound g i).height) :
    l'.Implied c.path height i := by
  have demand : c.path.demand i = c.premise.demand i := Scores.demand_constraints c.premise i
  have above := admissible.permitted.1
  have seen : ∀ s, Probe.Similarities i (q.data.Shows c.path) s → height ≤ s := by
    rintro s ⟨w, shown, rfl⟩
    exact admissible.holds w shown
  rcases settles with ⟨-, low⟩ | ⟨-, -, -, attained⟩
  · -- The bound collapsed, so a generalization claims as much.
    have floor : height ≤ Validation.floorHeight validated c.premise i := by
      rcases low with old | ⟨s, hs, low⟩
      · exact Int.le_trans le old
      · exact Int.le_trans (seen s hs) low
    rw [Validation.floorHeight] at floor
    have positive := admissible.positive hd
    have numbered := h.live.premise_numbered h₀.formed
    rcases h₀.claims.inherited_attained numbered i with zero | ⟨g, reaches, differ, eq⟩
    · have := congrArg Score.height zero
      change ((validated.inheritedBounds c.premise).score i).height = _ at this
      rw [Score.height_zero] at this
      omega
    · have inherited := congrArg Score.height eq
      change ((validated.inheritedBounds c.premise).score i).height = (validated.bound g i).height
        at inherited
      have general : g.Generalizes c.path := (Scores.generalizes_constraints_iff ..).mpr reaches
      have proper := (h₀.stored_of_bound (p := g) (i := i) (by omega)).1
      have supported := admissible.supported.of_generalizes hd proper admissible.proper general
      have lower := h.inherited i hi g general differ supported
      have lower' := kept g differ
      exact ⟨g, general, by change height ≤ (l'.bound g i).height; omega⟩
  · refine ⟨c.path, .refl _, ?_⟩
    change height ≤ (l'.bound c.path i).height
    rcases attained with eq | hs
    · rw [eq]
      exact le
    · exact seen _ hs

variable (hv : v.Sound q.data q.minSupport validated c) (hl : l.Sound q) (hc : l.Covers q)

include hv hl hc

theorem Current.covers_of_unsupported (few : ¬q.Supports c.path) : (correct q l c v).Covers q := by
  obtain ⟨-, -, bounds⟩ := h.live.reworked_of_unsupported hd hv h₀.formed hl.formed few
  intro s i height admissible
  obtain ⟨g, general, le⟩ := hc s i height admissible
  have claimed : 0 < (l.bound g i).height := Int.lt_of_lt_of_le (admissible.positive hd) le
  have proper := (hl.stored_of_bound claimed).1
  have supported := admissible.supported.of_generalizes hd proper admissible.proper general
  have differ : g ≠ c.path := by
    rintro rfl
    exact few supported
  refine ⟨g, general, ?_⟩
  change height ≤ ((correct q l c v).bound g i).height
  rw [bounds, if_neg differ]
  exact le

theorem Current.covers_of_supported
    (changes : ∀ k ∈ v.corrections, k.newBound.same k.oldBound = false)
    (supported : q.Supports c.path) : (correct q l c v).Covers q := by
  have low := h.live.lowered hd hv h₀.formed hl.formed
  obtain ⟨-, grows, implied⟩ :=
    h.live.specialized hd q.data.natural_self hv h₀.formed hl.formed supported
  obtain ⟨-, settled, -⟩ :=
    h.live.reworked_of_supported hd q.data.natural_self hv h₀.formed hl.formed changes supported
  generalize correct q l c v = raised at grows implied settled
  intro s i height admissible
  obtain ⟨g, general, le⟩ := hc s i height admissible
  by_cases same : (lowerAll l c v).bound g i = l.bound g i
  · refine ⟨g, general, Int.le_trans ?_ (grows.le g i)⟩
    rw [same]
    exact le
  · obtain ⟨rfl, k, hk, rfl⟩ := low.changed g i same
    obtain ⟨hi, old⟩ := h.live.mem_corrections hd hv h₀.formed hk
    change height ≤ (l.bound c.path k.index).height at le
    rw [h.live.same _ hi] at le
    -- Otherwise a specialization that was listed inherits the bound and still generalizes `s`.
    by_cases itself : s = c.path
    · subst itself
      refine h.implied_of_settles hd h₀ hi admissible le (settled.2 _ hi supported)
        fun g other => Int.le_trans ?_ (grows.le g k.index)
      exact Int.le_of_eq (by rw [low.others g k.index fun place => other place.1])
    · have fails : ¬c.premise.Reaches s := fun reaches =>
        itself (((Scores.generalizes_constraints_iff c.premise s).mpr reaches).antisymm
          hd.natural_positive admissible.proper h.live.proper general)
      have threshold := (h.live.bounded_corrections hd hv h₀.formed k hk).1
      have most : height ≤ k.oldBound.height := by
        rw [old]
        exact le
      obtain ⟨x, next, may, between, supports⟩ := admissible.exists_specialization hd
        h.live.length_premise (h.live.premise_numbered h₀.formed) fails h.live.proper general
        threshold most
      have natural := Dataset.natural_of_next next
      have listed := hl.not_dropped hd (h.live.proper.set (Nat.zero_le _) natural) supports
      exact (implied x next k hk may listed).trans most between

end Correct

/-! ## A batch of candidates -/

theorem Current.after {a : Candidate} (h : Current q validated l a)
    (reworked : Reworked q.data.Natural q [c] l l')
    (apart : ∀ i ∈ a.indices, Untouchable [c] a i) : Current q validated l' a := by
  refine ⟨h.live.after reworked apart, fun i hi g general other supported => ?_⟩
  rw [reworked.untouched_below (apart i hi) general (.inl supported)]
  exact h.inherited i hi g general other supported

/-- Correcting a batch loses nothing. -/
theorem foldl_covers (hd : q.data.Sound) (h₀ : validated.Sound q)
    {validation : Candidate → Validation} (hl : l.Sound q) (hc : l.Covers q)
    (apart : Apart batch) (current : ∀ c ∈ batch, Current q validated l c)
    (found : ∀ c ∈ batch, Validated q validated validation c) :
    (batch.foldl (fun l c => correct q l c (validation c)) l).Covers q := by
  induction batch generalizing l with
  | nil => exact hc
  | cons c batch ih =>
    have here := found c List.mem_cons_self
    have corrected := current c List.mem_cons_self
    obtain ⟨reworked, -⟩ := corrected.live.reworked hd q.data.natural_self here.sound
      h₀.formed hl.formed here.changes here.asks
    have covers : (correct q l c (validation c)).Covers q := by
      by_cases supported : q.Supports c.path
      · exact corrected.covers_of_supported hd h₀ here.sound hl hc here.changes supported
      · exact corrected.covers_of_unsupported hd h₀ here.sound hl hc supported
    rw [List.foldl_cons]
    exact ih (reworked.sound hl) covers apart.tail
      (fun a ha => (current a (List.mem_cons_of_mem _ ha)).after reworked
        fun i hi => apart.untouchable_tail ha hi)
      fun a ha => found a (List.mem_cons_of_mem _ ha)

end Traversal

end MatchingDependencies
