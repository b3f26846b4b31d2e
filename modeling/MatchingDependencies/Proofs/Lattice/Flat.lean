import MatchingDependencies.Proofs.Lattice.Built

/-!
# A lattice of claims is a flat map

A lattice of claims answers like a map from premises to bounds that is searched
entry by entry. Adding a claim changes one bound or nothing, and withdrawing a
premise makes its bounds zero. Nodes that are made on the way to a premise claim
nothing.
-/

set_option autoImplicit false

namespace MatchingDependencies

open MatchingDependencies.Path (Allowed)

namespace ClaimLattice

inductive Built (width : Nat) (cost : LevelCost) : ClaimLattice → Prop
  | new (costs : ∀ c t, 0 < cost c t) : Built width cost (.new width cost)
  | add {l : ClaimLattice} (h : Built width cost l) {premise : Scores} {bound : Score}
      {index : Nat} (hp : premise.IsPremise width) (hb : bound.inUnit = true)
      (nonzero : bound.isZero = false) (column : index < width) :
      Built width cost (l.addIfMinimal premise.constraints bound index).2
  | withdraw {l : ClaimLattice} (h : Built width cost l) {premise : Scores}
      (hp : premise.IsPremise width) : Built width cost (l.withdraw premise.constraints)
  | setBound {l : ClaimLattice} (h : Built width cost l) (premise : Scores) (index : Nat)
      {bound : Score} (hb : bound.inUnit = true) :
      Built width cost (l.setBound premise.constraints index bound)
  | setBounds {l : ClaimLattice} (h : Built width cost l) (premise : Scores) {bounds : Scores}
      (hb : bounds.IsPremise width) : Built width cost (l.setBounds premise.constraints bounds)
  | ask {l : ClaimLattice} (h : Built width cost l) (premise : Scores) (bound : Score)
      (index : Nat) : Built width cost (l.isImplied premise.constraints bound index).2
  | markChanged {l : ClaimLattice} (h : Built width cost l) (premise : Scores) :
      Built width cost (l.markChanged premise.constraints)
  | takeLowestChanged {l : ClaimLattice} (h : Built width cost l) :
      Built width cost l.takeLowestChanged.2

def claimed (l : ClaimLattice) (premise : Scores) (i : Nat) : Score :=
  l.bound premise.constraints i

def Stores (l : ClaimLattice) (premise : Scores) : Prop :=
  (l.find? premise.constraints).isSome = true

/-- What the operations answer and do at a premise, in terms of what is claimed. -/
structure Flat (width : Nat) (l : ClaimLattice) (premise : Scores) : Prop where
  implied : ∀ b i, (l.isImplied premise.constraints b i).1 = true ↔
    ∃ g, g.IsPremise width ∧ l.Stores g ∧ g.generalizes premise = true ∧ b ≤ l.claimed g i
  adds : ∀ b i, b.inUnit = true → b.isZero = false →
    ((l.addIfMinimal premise.constraints b i).1 = true ↔
      (l.isImplied premise.constraints b i).1 = false)
  added : ∀ b i, b.inUnit = true → b.isZero = false → i < width →
    (l.addIfMinimal premise.constraints b i).1 = true → ∀ g j, g.IsPremise width →
      (l.addIfMinimal premise.constraints b i).2.claimed g j =
        if g.same premise = true ∧ j = i then b else l.claimed g j
  refused : ∀ b i, b.inUnit = true → b.isZero = false →
    (l.addIfMinimal premise.constraints b i).1 = false →
      ∃ count, (l.addIfMinimal premise.constraints b i).2 = l.visiting count
  withdrawn : ∀ g, g.IsPremise width →
    ((l.withdraw premise.constraints).Stores g ↔ l.Stores g) ∧
      ∀ j, (l.withdraw premise.constraints).claimed g j =
        if g.same premise = true then 0 else l.claimed g j
  written : l.Stores premise → ∀ b i, b.inUnit = true → i < width → ∀ g j, g.IsPremise width →
    (l.setBound premise.constraints i b).claimed g j =
      if g.same premise = true ∧ j = i then b else l.claimed g j

variable {ok : Allowed} {width : Nat} {cost : LevelCost} {l : ClaimLattice} {premise g : Scores}
  {b : Score} {i : Nat}

theorem harmless_setBounds {bounds : Scores} (hb : bounds.IsPremise width) :
    Harmless width fun n => { n with bounds := bounds.toArray } := by
  intro n _
  refine ⟨⟨hb.length, fun b mem => hb.inUnit b ?_⟩, rfl⟩
  simpa using mem

theorem Built.sound (h : Built width cost l) :
    l.Sound (Path.similarities width) ∧ l.width = width ∧ l.cost = cost := by
  induction h with
  | new costs =>
    exact ⟨sound_new (Path.similarities_positive width) (Path.similarities_within width) costs,
      rfl, rfl⟩
  | @add l _ premise bound index hp hb nonzero _ ih =>
    obtain ⟨sound, widths, costs⟩ := ih
    obtain ⟨width', cost'⟩ := l.cost_addIfMinimal premise.constraints bound index
    have proper := hp.inUnit.constraints_allowed hp.length
    exact ⟨sound.addIfMinimal proper (Score.isThreshold_of_inUnit hb nonzero) index,
      width'.trans widths, cost'.trans costs⟩
  | withdraw _ hp ih =>
    exact ⟨ih.1.withdraw _, (width_modify ..).trans ih.2.1, (cost_modify ..).trans ih.2.2⟩
  | setBound _ premise index hb ih =>
    exact ⟨ih.1.setBound _ index hb, (width_modify ..).trans ih.2.1,
      (cost_modify ..).trans ih.2.2⟩
  | setBounds _ premise hb ih =>
    exact ⟨ih.1.modify _ (harmless_setBounds (ih.2.1 ▸ hb)), (width_modify ..).trans ih.2.1,
      (cost_modify ..).trans ih.2.2⟩
  | ask _ premise bound index ih => exact ⟨ih.1.aside _ _, ih.2⟩
  | markChanged _ premise ih => exact ⟨ih.1.aside _ _, ih.2⟩
  | takeLowestChanged _ ih => exact ⟨ih.1.aside none _, ih.2⟩

theorem Sound.stores_withdraw_iff (hl : l.Sound ok) (premise g : Scores) :
    (l.withdraw premise.constraints).Stores g ↔ l.Stores g := by
  rw [Stores, Stores, ClaimLattice.withdraw, hl.find?_modify]
  split
  · rw [Option.isSome_map]
  · exact Iff.rfl

section Flat

variable (sound : l.Sound (Path.similarities width)) (hp : premise.IsPremise width)

include sound hp

theorem Sound.implied_iff_stores (b : Score) (i : Nat) :
    (l.isImplied premise.constraints b i).1 = true ↔ ∃ g : Scores, g.IsPremise width ∧
      l.Stores g ∧ g.generalizes premise = true ∧ b ≤ l.claimed g i := by
  rw [sound.isImplied_iff_entries (hp.inUnit.constraints_allowed hp.length)]
  constructor
  · rintro ⟨⟨p, n⟩, he, general, claims⟩
    have proper := sound.mem_entries he
    have path := proper.constraints_premise sound.positive (Path.similarities_within width)
    have found : l.find? (Scores.constraints (p.premise width)) = some n := by
      rw [path]
      exact sound.find?_eq_some_iff.mpr he
    have hg := proper.isPremise (Path.similarities_graded width) (Path.similarities_within width)
    refine ⟨p.premise width, hg, ?_, ?_, ?_⟩
    · rw [Stores, found]
      rfl
    · rw [hg.generalizes_iff hp, path]
      exact general
    · rw [claimed, bound_of_find? found]
      exact of_decide_eq_true claims
  · rintro ⟨g, hg, stored, general, le⟩
    obtain ⟨n, found⟩ := Option.isSome_iff_exists.mp stored
    rw [claimed, bound_of_find? found] at le
    exact ⟨(g.constraints, n), sound.find?_eq_some_iff.mp found, (hg.generalizes_iff hp).mp general,
      decide_eq_true le⟩

theorem Sound.addIfMinimal_cases {b : Score} (hb : b.inUnit = true) (nonzero : b.isZero = false)
    (i : Nat) :
    ((l.isImplied premise.constraints b i).1 = true ∧
      ∃ count, l.addIfMinimal premise.constraints b i = (false, l.visiting count)) ∨
    ((l.isImplied premise.constraints b i).1 = false ∧
      (l.addIfMinimal premise.constraints b i).1 = true ∧
      ∀ p j, (l.addIfMinimal premise.constraints b i).2.bound p j =
        (l.claim premise.constraints b i).bound p j) := by
  have proper := hp.inUnit.constraints_allowed hp.length
  have threshold := Score.isThreshold_of_inUnit hb nonzero
  have found := sound.isImplied_iff proper threshold i
  by_cases implied : l.Implied premise.constraints b.height i
  · exact .inl ⟨found.mpr implied, sound.addIfMinimal_of_implied proper threshold implied⟩
  · obtain ⟨count, eq⟩ := sound.addIfMinimal_of_not_implied proper threshold implied
    rw [eq]
    exact .inr ⟨by simpa using mt found.mp implied, rfl, fun _ _ => rfl⟩

end Flat

/-- Whatever was added, withdrawn and written, a lattice of claims answers and
changes like a flat map of bounds. -/
theorem built_flat (built : Built width cost l) (hp : premise.IsPremise width) :
    Flat width l premise := by
  obtain ⟨sound, widths, -⟩ := built.sound
  have proper := hp.inUnit.constraints_allowed hp.length
  constructor
  · exact sound.implied_iff_stores hp
  · intro b i hb nonzero
    rcases sound.addIfMinimal_cases hp hb nonzero i with ⟨implied, count, eq⟩ | ⟨new, added, -⟩
    · simp [implied, eq]
    · simp [new, added]
  · intro b i hb nonzero column added g j hg
    rcases sound.addIfMinimal_cases hp hb nonzero i with ⟨-, count, eq⟩ | ⟨-, -, bound⟩
    · rw [eq] at added
      nomatch added
    · simp only [claimed, bound, sound.bound_claim proper (widths ▸ column), hg.same_iff hp]
  · intro b i hb nonzero refused
    rcases sound.addIfMinimal_cases hp hb nonzero i with ⟨-, count, eq⟩ | ⟨-, added, -⟩
    · exact ⟨count, congrArg Prod.snd eq⟩
    · rw [added] at refused
      nomatch refused
  · intro g hg
    refine ⟨sound.stores_withdraw_iff premise g, fun j => ?_⟩
    simp only [claimed, sound.bound_withdraw, hg.same_iff hp]
  · intro stored b i hb column g j hg
    simp only [claimed, sound.bound_setBound stored (widths ▸ column), hg.same_iff hp]

theorem built_flat_refined : Flat 2 (((ClaimLattice.new 2 unitCost).setBound [] 0 0).addIfMinimal
    (Scores.constraints [0, 1]) 1 0).2 [1, 1] := by
  have lowered : Built 2 unitCost ((ClaimLattice.new 2 unitCost).setBound [] 0 0) :=
    (Built.new fun _ _ => Nat.one_pos).setBound [0, 0] 0 (by decide)
  have added := lowered.add (by decide : Scores.IsPremise 2 [0, 1])
    (by decide : Score.inUnit 1 = true) (by decide) Nat.two_pos
  exact built_flat added (by decide)

end ClaimLattice

end MatchingDependencies
