import MatchingDependencies.Proofs.Lattice.Built

/-!
# Marks are final

A premise that was marked as unsupported is never listed and never claimed
again, and neither are its specializations, whatever is done to the lattice
before and afterwards, in whichever order. The invariant says nothing of
bounds, so it does not matter which bounds are written: nodes stand in proper
paths, and the marks are those of the premises that were marked so far.
-/

set_option autoImplicit false

namespace MatchingDependencies.Lattice

open MatchingDependencies.Path (similarities similarities_graded similarities_positive
  similarities_within)

inductive Operation where
  | add (premise : Scores) (bound : Score) (index : Nat)
  | addSupported (premise : Scores) (bound : Score) (index : Nat)
  | setBound (premise : Scores) (index : Nat) (bound : Score)
  | ask (premise : Scores) (bound : Score) (index : Nat)
  | markChanged (premise : Scores)
  | takeLowestChanged
  | markUnsupported (premise : Scores)

namespace Operation

def perform (l : Lattice) : Operation → Lattice
  | add premise bound index => (l.addIfMinimal premise.constraints bound index).2
  | addSupported premise bound index =>
    (l.addIfMinimalSupported premise.constraints bound index).2
  | setBound premise index bound => l.setBound premise.constraints index bound
  | ask premise bound index => (l.isImplied premise.constraints bound index).2
  | markChanged premise => l.markChanged premise.constraints
  | takeLowestChanged => l.takeLowestChanged.2
  | markUnsupported premise => l.markUnsupported premise.constraints

def premise? : Operation → Option Scores
  | add premise _ _ => some premise
  | addSupported premise _ _ => some premise
  | setBound premise _ _ => some premise
  | ask premise _ _ => some premise
  | markChanged premise => some premise
  | takeLowestChanged => none
  | markUnsupported premise => some premise

def marks : Operation → List Scores
  | markUnsupported premise => [premise]
  | _ => []

def Fits (width : Nat) (o : Operation) : Prop := ∀ p ∈ o.premise?, p.IsPremise width

instance (width : Nat) : DecidablePred (Fits width) := fun o =>
  inferInstanceAs (Decidable (∀ p ∈ o.premise?, p.IsPremise width))

end Operation

def performAll (l : Lattice) (ops : List Operation) : Lattice := ops.foldl Operation.perform l

def marks (ops : List Operation) : List Scores := ops.flatMap Operation.marks

/-- How a lattice behaves after these premises were marked. -/
structure Closed (width : Nat) (marks : List Scores) (l : Lattice) : Prop where
  unsupported : ∀ p : Scores, p.IsPremise width →
    (l.isUnsupported p.constraints = true ↔ ∃ m ∈ marks, m.generalizes p = true)
  unlisted : ∀ level, ∀ e ∈ l.atLevel level, ∀ m ∈ marks, m.generalizes e.1 = false
  refused : ∀ m ∈ marks, ∀ p : Scores, p.IsPremise width → m.generalizes p = true →
    ∀ b i, l.addIfMinimalSupported p.constraints b i = (false, l)
  withdrawn : ∀ m g : Scores, m.IsPremise width → g.IsPremise width → ∀ j,
    (l.markUnsupported m.constraints).bound g.constraints j =
      if g.same m = true then 0 else l.bound g.constraints j

/-! ## What one operation keeps -/

structure Laid (width : Nat) (marks : List Scores) (l : Lattice) : Prop where
  columns : l.claims.width = width
  cost : l.claims.cost = ClaimLattice.unitCost
  branches : l.claims.branches.Proper (similarities width) 0
  unsupported : l.unsupported.Sound (similarities width)
  premises : ∀ m ∈ marks, m.IsPremise width
  marked : ∀ p, l.unsupported.Marked p ↔ ∃ m ∈ marks, m.constraints = p

variable {width : Nat} {before : List Scores} {l : Lattice} {p : Scores}

theorem laid_new (width : Nat) : Laid width [] (Lattice.new width) := by
  constructor
  · rfl
  · rfl
  · trivial
  · exact UnsupportedSet.sound_empty (similarities_positive width)
  · simp
  · intro p
    exact iff_of_false (UnsupportedSet.not_marked_empty p) (by simp)

namespace Laid

variable (h : Laid width before l)

include h

theorem of_claims {claims : ClaimLattice} (hw : claims.width = l.claims.width)
    (hc : claims.cost = l.claims.cost) (hb : claims.branches.Proper (similarities width) 0) :
    Laid width before { l with claims } :=
  ⟨hw.trans h.columns, hc.trans h.cost, hb, h.unsupported, h.premises, h.marked⟩

theorem add (hp : p.IsPremise width) (b : Score) (i : Nat) :
    Laid width before (l.addIfMinimal p.constraints b i).2 := by
  have frame := l.claims.cost_addIfMinimal p.constraints b i
  have proper := hp.inUnit.constraints_allowed hp.length
  exact h.of_claims frame.1 frame.2
    (ClaimLattice.proper_addIfMinimal h.branches proper b i)

theorem modify (p : Path) (f : Node → Node) :
    Laid width before { l with claims := l.claims.modify p f } :=
  h.of_claims (ClaimLattice.width_modify ..) (ClaimLattice.cost_modify ..)
    (ClaimLattice.proper_modify h.branches p f)

theorem mark (hp : p.IsPremise width) :
    Laid width (before ++ [p]) (l.markUnsupported p.constraints) := by
  have proper := hp.inUnit.constraints_allowed hp.length
  have claims := h.modify p.constraints fun node =>
    { node with bounds := node.bounds.map fun _ => 0 }
  refine ⟨claims.columns, claims.cost, claims.branches, h.unsupported.mark proper, ?_, ?_⟩
  · intro m hm
    rcases List.mem_append.mp hm with hm | hm
    · exact h.premises m hm
    · rw [List.mem_singleton.mp hm]
      exact hp
  · intro q
    have marked := h.unsupported.marked_mark proper (q := q)
    change (l.unsupported.mark p.constraints).Marked q ↔ _
    rw [marked, h.marked]
    constructor
    · rintro (rfl | ⟨m, hm, eq⟩)
      · exact ⟨p, by simp, rfl⟩
      · exact ⟨m, List.mem_append_left _ hm, eq⟩
    · rintro ⟨m, hm, eq⟩
      rcases List.mem_append.mp hm with hm | hm
      · exact .inr ⟨m, hm, eq⟩
      · rw [List.mem_singleton.mp hm] at eq
        exact .inl eq.symm

theorem perform {o : Operation} (fits : o.Fits width) :
    Laid width (before ++ o.marks) (o.perform l) := by
  cases o with
  | markUnsupported p => exact h.mark (fits p rfl)
  | add p b i =>
    simp only [Operation.marks, List.append_nil]
    exact h.add (fits p rfl) b i
  | addSupported p b i =>
    simp only [Operation.marks, List.append_nil, Operation.perform, Lattice.addIfMinimalSupported]
    split
    · exact h
    · exact h.add (fits p rfl) b i
  | setBound p i b =>
    simp only [Operation.marks, List.append_nil]
    exact h.modify p.constraints _
  | ask p b i =>
    simp only [Operation.marks, List.append_nil]
    exact h.of_claims rfl rfl h.branches
  | markChanged p =>
    simp only [Operation.marks, List.append_nil]
    exact h.of_claims rfl rfl h.branches
  | takeLowestChanged =>
    simp only [Operation.marks, List.append_nil]
    exact h.of_claims rfl rfl h.branches

theorem performAll {ops : List Operation} (fits : ∀ o ∈ ops, o.Fits width) :
    Laid width (before ++ marks ops) (l.performAll ops) := by
  induction ops generalizing before l with
  | nil =>
    rw [marks, List.flatMap_nil, List.append_nil]
    exact h
  | cons o ops ih =>
    have first := h.perform (fits o List.mem_cons_self)
    have rest := ih first fun o ho => fits o (List.mem_cons_of_mem _ ho)
    rw [marks, List.flatMap_cons, ← List.append_assoc]
    exact rest

/-! ## What the marks decide -/

theorem isUnsupported_iff (hp : p.IsPremise width) :
    l.isUnsupported p.constraints = true ↔ ∃ m ∈ before, m.generalizes p = true := by
  have contains := h.unsupported.contains_iff (hp.inUnit.constraints_allowed hp.length)
  rw [Lattice.isUnsupported, contains]
  constructor
  · rintro ⟨q, marked, general⟩
    obtain ⟨m, hm, rfl⟩ := (h.marked q).mp marked
    exact ⟨m, hm, ((h.premises m hm).generalizes_iff hp).mpr general⟩
  · rintro ⟨m, hm, general⟩
    exact ⟨m.constraints, (h.marked _).mpr ⟨m, hm, rfl⟩,
      ((h.premises m hm).generalizes_iff hp).mp general⟩

theorem ordered : l.Ordered (similarities width) width :=
  ⟨h.unsupported.positive, similarities_within width, h.columns, h.cost, h.branches⟩

theorem isPremise_of_listed {level : Nat} {e : Scores × Node} (he : e ∈ l.claims.atLevel level) :
    e.1.IsPremise width := by
  rw [h.ordered.atLevel_claims, List.mem_map] at he
  obtain ⟨x, hx, rfl⟩ := he
  have proper := ClaimLattice.proper_of_mem_entries h.branches (List.mem_filter.mp hx).1
  exact proper.isPremise (similarities_graded width) (similarities_within width)

theorem closed : Closed width before l := by
  constructor
  · exact fun p hp => h.isUnsupported_iff hp
  · intro level e he m hm
    obtain ⟨listed, supported⟩ := List.mem_filter.mp he
    have unmarked := mt (h.isUnsupported_iff (h.isPremise_of_listed listed)).mpr
      (by simpa using supported)
    rw [← Bool.not_eq_true]
    exact fun general => unmarked ⟨m, hm, general⟩
  · intro m hm p hp general b i
    have unsupported := (h.isUnsupported_iff hp).mpr ⟨m, hm, general⟩
    rw [Lattice.addIfMinimalSupported, if_pos unsupported]
  · intro m g hm hg j
    have nonzero := h.unsupported.positive.nonzero
    have bounds := ClaimLattice.bound_withdraw nonzero h.branches m.constraints g.constraints j
    simp only [hg.same_iff hm]
    exact bounds

end Laid

/-- After any operations the unsupported premises are the specializations of
the marked ones, and none of them is listed or claimed again. -/
theorem performAll_closed {ops : List Operation} (fits : ∀ o ∈ ops, o.Fits width) :
    Closed width (marks ops) ((Lattice.new width).performAll ops) := by
  simpa using ((laid_new width).performAll fits).closed

theorem performAll_closed_hidden :
    let ops : List Operation := [.setBound [0, 0] 1 0, .addSupported [1, 1] 1 1,
      .markUnsupported [1, 0], .addSupported [1, 0] 1 1]
    (∀ o ∈ ops, o.Fits 2) ∧ Closed 2 (marks ops) ((Lattice.new 2).performAll ops) := by
  intro ops
  have fits : ∀ o ∈ ops, o.Fits 2 := by decide
  exact ⟨fits, performAll_closed fits⟩

end MatchingDependencies.Lattice
