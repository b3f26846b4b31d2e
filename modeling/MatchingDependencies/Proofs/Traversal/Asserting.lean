import MatchingDependencies.Proofs.Lattice.Asserting
import MatchingDependencies.Proofs.Traversal.Steps

/-!
# Traversal that asserts what it relies on

A validation that ends early has no bound left, and what is claimed of a
specialization was asked for support before. The functions with a question mark
are those of traversal, except that they answer nothing where this or an
assertion of the lattice fails. On a lattice of proper paths they answer as
traversal does, whatever the schedule is.
-/

set_option autoImplicit false

namespace MatchingDependencies

open MatchingDependencies.Path (Allowed)

/-! ## The functions -/

def Validation.run? (d : Dataset) (minSupport : Nat) (l : Lattice) (c : Candidate) :
    Option Validation :=
  let bounds := ((l.find? c.premise.constraints).map Node.bounds).getD #[]
  if c.premise.cardinality = 0 then some (ofEmptyPremise d minSupport bounds c.indices)
  else
    let inherited := l.inheritedBounds c.premise
    let start : Survey := ⟨c.indices.map (probe c.premise inherited bounds), 0⟩
    let survey := d.visitGroups c.premise (Survey.isFinal minSupport) (Survey.visit d) start
    if survey.isFinal minSupport && !survey.probes.all fun p => p.bound.isZero then none
    else some (ofSurvey minSupport survey)

namespace Traversal

def specialize? (q : Setting) (corrections : List Correction) (general : Path) (l : Lattice)
    (specialization : Nat × Score) : Option Lattice :=
  let (column, threshold) := specialization
  let path := general.set column threshold
  if l.isUnsupported path then some l
  else
    corrections.foldlM (fun l c =>
      if mayClaim q column threshold c.index c.oldBound then
        (l.addIfMinimal? path c.oldBound c.index).map Prod.snd
      else some l) l

def correct? (q : Setting) (l : Lattice) (c : Candidate) (v : Validation) : Option Lattice :=
  let path := c.premise.constraints
  let l := v.corrections.foldl (fun l k => l.setBound path k.index k.newBound) l
  if v.isUnsupported then l.markUnsupported? path
  else (nextThresholds q.data c.premise).foldlM (specialize? q v.corrections path) l

def corrected? (q : Setting) (l : Lattice) (batch : List Candidate) : Option Lattice :=
  (batch.mapM fun c =>
    (Validation.run? q.data q.minSupport l c).map fun v => (c, v)).bind fun results =>
      results.foldlM (fun l' (c, v) => correct? q l' c v) l

def step? (q : Setting) (t : Traversal) (w : Workspace) :
    Option (TraversalStep × Traversal × Workspace) :=
  let lattice := w.lattice.takeLowestChanged.2
  let schedule := begun t w
  if !schedule.levelsLeft lattice then
    some (.finished, { t with schedule }, { w with lattice })
  else
    match schedule.nextBatch lattice with
    | ([], schedule) => some (.levelEnded, { t with schedule }, { w with lattice })
    | (batch, schedule) =>
      (corrected? q lattice batch).map fun next =>
        (.batchValidated,
          ⟨settled q lattice batch schedule, t.validations + batch.length, t.batches + 1⟩,
          (⟨next, w.pending⟩ : Workspace).withPending (found q lattice batch))

end Traversal

/-! ## Validation -/

theorem Survey.isZero_of_isFinal {minSupport : Nat} {s : Survey}
    (h : s.isFinal minSupport = true) : s.probes.all (fun p => p.bound.isZero) = true := by
  rw [isFinal, Bool.and_eq_true, Bool.and_eq_true] at h
  rw [List.all_eq_true]
  intro p hp
  have settled := List.all_eq_true.mp h.1.1 p hp
  rw [Probe.isSettled, Bool.and_eq_true] at settled
  exact settled.1

theorem Validation.run?_eq (d : Dataset) (minSupport : Nat) (l : Lattice) (c : Candidate) :
    run? d minSupport l c = some (run d minSupport l c) := by
  rw [run?, run]
  split
  · rfl
  · generalize d.visitGroups c.premise _ _ _ = survey
    rw [if_neg]
    intro early
    rw [Bool.and_eq_true, Bool.not_eq_true'] at early
    rw [Survey.isZero_of_isFinal early.1] at early
    cases early.2

namespace Traversal

variable {ok : Allowed} {q : Setting} {validated l : Lattice} {p : Path} {c : Candidate}
  {v : Validation} {batch : List Candidate}

/-! ## Corrections -/

theorem specialize?_eq (hp : p.Proper ok 0) {corrections : List Correction}
    (bounded : Bounded q.data.width corrections) {x : Nat × Score} (hx : ok x.1 x.2)
    (hl : l.Formed ok q.data.width) :
    specialize? q corrections p l x = some (specialize q corrections p l x) := by
  obtain ⟨column, threshold⟩ := x
  have proper : (p.set column threshold).Proper ok 0 := hp.set (Nat.zero_le _) hx
  rw [specialize?, specialize]
  split
  · rfl
  · next supported =>
    -- adding claims marks nothing
    refine foldlM_eq_some (fun l' => l'.Formed ok q.data.width ∧
      l'.unsupported = l.unsupported) ?_ ⟨hl, rfl⟩
    rintro l' ⟨formed, same⟩ k hk
    obtain ⟨isThreshold, hi⟩ := bounded k hk
    split
    · have listed : l'.isUnsupported (p.set column threshold) = false := by
        rw [Lattice.isUnsupported, same]
        exact Bool.eq_false_iff.mpr supported
      obtain ⟨formed', grows, -⟩ := formed.addIfMinimal proper isThreshold hi
      rw [formed.addIfMinimal?_eq proper isThreshold hi listed]
      exact ⟨rfl, formed', grows.unsupported.trans same⟩
    · exact ⟨rfl, formed, same⟩

section Correct

variable (hd : q.data.Sound) (natural : ∀ c t, q.data.Natural c t → ok c t)
  (h₀ : validated.Formed ok q.data.width) (hl : l.Formed ok q.data.width)

include hd natural h₀ hl

theorem Live.correct?_eq (hv : v.Sound q.data q.minSupport validated c)
    (h : Live ok q.data.width validated l c) : correct? q l c v = some (correct q l c v) := by
  have lowered := (h.lowered hd hv h₀ hl).formed
  have bounded := h.bounded_corrections hd hv h₀
  rw [correct?, correct]
  change Lattice.Formed ok q.data.width
    (v.corrections.foldl (fun l k => l.setBound c.premise.constraints k.index k.newBound) l)
      at lowered
  split
  · exact lowered.markUnsupported?_eq h.proper
  · refine foldlM_eq_some (fun l => l.Formed ok q.data.width) ?_ lowered
    intro l hl x hx
    have allowed := natural _ _ (Dataset.natural_of_next hx)
    exact ⟨specialize?_eq h.proper bounded allowed hl,
      (specialize_grows h.proper bounded allowed hl).1⟩

theorem foldlM_correct? {validation : Candidate → Validation} (apart : Apart batch)
    (live : ∀ c ∈ batch, Live ok q.data.width validated l c)
    (found : ∀ c ∈ batch, Validated q validated validation c) :
    batch.foldlM (fun l c => correct? q l c (validation c)) l =
      some (batch.foldl (fun l c => correct q l c (validation c)) l) := by
  induction batch generalizing l with
  | nil => rfl
  | cons c batch ih =>
    have here := found c List.mem_cons_self
    have first := live c List.mem_cons_self
    have reworked := (first.reworked hd natural here.sound h₀ hl here.changes here.asks).1
    have rest := ih reworked.formed apart.tail
      (fun a ha => (live a (List.mem_cons_of_mem _ ha)).after reworked
        fun i hi => apart.untouchable_tail ha hi)
      fun a ha => found a (List.mem_cons_of_mem _ ha)
    rw [List.foldlM_cons, first.correct?_eq hd natural h₀ hl here.sound, List.foldl_cons]
    exact rest

end Correct

/-! ## Steps -/

section Steps

variable {s : Schedule} (hd : q.data.Sound) (natural : ∀ c t, q.data.Natural c t → ok c t)
  (hl : l.Formed ok q.data.width)

include hd natural hl

theorem corrected?_eq (chosen : s.Chosen q l batch) :
    corrected? q l batch = some (corrected q l batch) := by
  have validated : (batch.mapM fun c =>
      (Validation.run? q.data q.minSupport l c).map fun v => (c, v)) =
        some (batch.map fun c => (c, Validation.run q.data q.minSupport l c)) := by
    simp only [Validation.run?_eq, Option.map_some]
    exact List.mapM_pure
  rw [corrected?, validated, Option.bind_some, List.foldlM_map]
  exact foldlM_correct? hd natural hl hl (apart_of_chosen chosen)
    (fun _ hc => live_of_chosen hl chosen hc) fun _ hc => validated_of_chosen hl chosen hd hc

/-- A step fails no assertion, whatever was handed out before. -/
theorem step?_eq (t : Traversal) (pending : Std.TreeSet Counterexample) :
    step? q t ⟨l, pending⟩ = some (step q t ⟨l, pending⟩) := by
  have formed := hl.takeLowestChanged.1
  rw [step?, step_eq]
  dsimp only
  generalize begun t ⟨l, pending⟩ = schedule
  generalize l.takeLowestChanged.2 = lattice at formed
  split
  · rfl
  · rcases Schedule.nextBatch_cases (s := schedule) (q := q) formed with
      ⟨next, -⟩ | ⟨batch, some, next, chosen⟩
    · rw [next]
    · obtain ⟨c, rest, rfl⟩ := List.exists_cons_of_ne_nil some
      rw [next]
      dsimp only
      rw [corrected?_eq hd natural formed chosen]
      rfl

end Steps

end Traversal

end MatchingDependencies
