import MatchingDependencies.Proofs.Inference.Rounds
import MatchingDependencies.Proofs.Lattice.Asserting

/-!
# Inference that asserts what it relies on

With the disjointness rule no claim that is refuted stands at a premise that
constrains the column match of the claim. The functions with a question mark are
those of inference, except that they answer nothing where this or an assertion
of the lattice fails. As long as the claims are permitted, and all profiles come
from record pairs, they answer as inference does.
-/

set_option autoImplicit false

namespace MatchingDependencies.Inference

open MatchingDependencies.Path (Allowed)

/-! ## The functions -/

def claimSpecializations? (q : Setting) (p : Path) (i : Nat) (b : Score) (failed : Path)
    (l : Lattice) : Option Lattice :=
  failed.foldlM (fun l x =>
    if Traversal.mayClaim q x.1 x.2 i b then
      (l.addIfMinimalSupported? (p.set x.1 x.2) b i).map Prod.snd
    else some l) l

def refute? (q : Setting) (failed premise : Path) (state : Lattice × Nat) (r : Reach) :
    Option (Lattice × Nat) :=
  let (l, count) := state
  if r.bound ≤ r.reached then some (l, count)
  else if q.disjoint && !(premise.score r.index).isZero then none
  else
    (claimSpecializations? q premise r.index r.bound failed
      (weaken l premise r.index r.reached)).map fun l => (l, count+1)

def refutePremise? (q : Setting) (profile : Scores) (failed : Path) (state : Lattice × Nat)
    (premise : Path) : Option (Lattice × Nat) :=
  (reachesOf state.1 profile premise).foldlM (refute? q failed premise) state

def refuteAll? (q : Setting) (l : Lattice) (profile : Scores) : Option (Lattice × Nat) :=
  let failed := Traversal.nextThresholds q.data profile
  ((l.violated profile).map fun (premise, _) => premise.constraints).foldlM
    (refutePremise? q profile failed) (l, 0)

def applyTo? (q : Setting) (i : Inference) (l : Lattice) (profile : Scores) :
    Option (Nat × Inference × Lattice) :=
  (refuteAll? q l profile).map fun (l, count) =>
    (count, { i with profileCount := i.profileCount+1, refutedCount := i.refutedCount+count }, l)

def check? (q : Setting) (t : Turn) (profile : Scores) : Option (Bool × Turn) :=
  if t.inference.applied.contains profile.ranks then some (true, t)
  else
    let i := { t.inference with applied := t.inference.applied.insert profile.ranks }
    (applyTo? q i t.lattice profile).map fun (count, i, lattice) =>
      let round : Round := ⟨t.round.profiles+1, t.round.refuted+count⟩
      if round.isUnproductive i.patience then
        (false, ⟨{ i with patience := 2*i.patience }, lattice, round⟩)
      else (true, ⟨i, lattice, round⟩)

def checkStack? (q : Setting) : List Counterexample → Turn → Option (Bool × Turn)
  | [], t => some (true, { t with inference := { t.inference with stack := [] } })
  | c::stack, t =>
    (check? q t (q.data.profile c.left c.right)).bind fun
      | (true, t) => checkStack? q stack t
      | (false, t) => some (false, { t with inference := { t.inference with stack } })

def checkAhead? (q : Setting) : List Scores → Turn → Option (Bool × Turn)
  | [], t => some (true, { t with inference := { t.inference with ahead := [] } })
  | profile::ahead, t =>
    (check? q t profile).bind fun
      | (true, t) => checkAhead? q ahead t
      | (false, t) => some (false, { t with inference := { t.inference with ahead } })

def checkRecords? (q : Setting) : (left : Nat) → Turn → Option (Bool × Turn)
  | 0, t => some (true, t)
  | left+1, t =>
    let record := t.inference.nextLeft
    let t := { t with inference := { t.inference with nextLeft := record+1 } }
    (checkAhead? q (q.data.profilesOf record).reverse t).bind fun
      | (true, t) => checkRecords? q left t
      | (false, t) => some (false, t)

def run? (q : Setting) (i : Inference) (w : Workspace) : Option (Bool × Inference × Workspace) :=
  let stack := w.pending.toList.reverse ++ i.stack
  let answer := fun (result : Bool × Turn) =>
    (result.1, result.2.inference, (⟨result.2.lattice, ∅⟩ : Workspace))
  (checkStack? q stack ⟨i, w.lattice, ⟨0, 0⟩⟩).bind fun
    | (false, t) => some (answer (false, t))
    | (true, t) =>
      (checkAhead? q t.inference.ahead t).bind fun
        | (false, t) => some (answer (false, t))
        | (true, t) =>
          (checkRecords? q (q.data.leftCount - t.inference.nextLeft) t).map answer

/-! ## Refuting claims -/

variable {ok : Allowed} {width : Nat} {q : Setting} {l : Lattice} {p : Path} {i : Nat} {v : Scores}

theorem claimSpecializations?_eq (hp : p.Proper ok 0) {b : Score} (hb : b.IsThreshold)
    (hi : i < width) {failed : Path} (allowed : ∀ x ∈ failed, ok x.1 x.2)
    (hl : l.Formed ok width) :
    claimSpecializations? q p i b failed l = some (claimSpecializations q p i b failed l) := by
  refine foldlM_eq_some (fun l => l.Formed ok width) ?_ hl
  intro l hl x hx
  have proper : (p.set x.1 x.2).Proper ok 0 := hp.set (Nat.zero_le _) (allowed x hx)
  split
  · rw [hl.addIfMinimalSupported?_eq proper hb hi]
    exact ⟨rfl, (hl.addIfMinimalSupported proper hb hi).1⟩
  · exact ⟨rfl, hl⟩

theorem Corrects.separated {l' : Lattice} (corrects : Corrects ok q v p i l l')
    (claimed : 0 < (l.bound p i).height) (hl : l.Separated q) : l'.Separated q := by
  intro rule g j positive
  by_cases same : l'.bound g j = l.bound g j
  · exact hl rule g j (same ▸ positive)
  · cases corrects.displaced same with
    | lowered here _ => exact here.1 ▸ here.2 ▸ hl rule p i claimed
    | inherited here _ heir =>
      obtain ⟨x, -, eq, may⟩ := heir
      have other : x.1 ≠ i := by
        intro column
        rw [Traversal.mayClaim, if_pos column, rule] at may
        exact Bool.false_ne_true may
      rw [eq, here, Path.demand_set, if_neg other]
      exact hl rule p i claimed

section Refute

variable (hd : q.data.Sound) (natural : ∀ c t, q.data.Natural c t → ok c t)
  (len : v.length = q.data.width) (numbered : v.Numbered) (hl : l.Formed ok q.data.width)
  (apart : l.Separated q)

include hd natural len numbered hl apart

omit hd len in
theorem refute?_eq (count : Nat) {r : Reach} (score : r.reached = v.score r.index)
    (bound : r.bound = l.bound p r.index) :
    refute? q (Traversal.nextThresholds q.data v) p (l, count) r =
      some (refute q (Traversal.nextThresholds q.data v) p (l, count) r) := by
  rw [refute?, refute]
  dsimp only
  split
  · rfl
  · next above =>
    rw [score, bound, numbered.le_score_iff, Int.not_le] at above
    have claimed := Int.lt_of_le_of_lt (numbered.demand_nonneg _) above
    obtain ⟨proper, -, hi⟩ := hl.stored_of_bound claimed
    have disjoint : (q.disjoint && !(p.score r.index).isZero) = false := by
      cases rule : q.disjoint with
      | false => rfl
      | true => simpa using (Score.isZero_iff _).mpr (apart rule p r.index claimed)
    obtain ⟨weakened, -⟩ :=
      weaken_replaces hl claimed (hl.inUnit_of_below numbered above)
    have specialized := claimSpecializations?_eq (q := q) proper (hl.isThreshold_bound claimed) hi
      (fun _ next => natural _ _ (Dataset.natural_of_next (v := v) next))
      weakened.formed
    rw [disjoint, if_neg Bool.false_ne_true, score, bound, specialized]
    rfl

theorem Refutes.separated {l' : Lattice} (h : Refutes q v l l') : l'.Separated q := by
  induction h with
  | refl => exact apart
  | correct before contradicts ih =>
    have formed := (before.reduced hd natural len numbered hl).formed
    have claimed := Int.lt_of_le_of_lt (numbered.demand_nonneg _) contradicts.2
    exact (corrects_correctClaim hd natural len numbered formed contradicts.2
      contradicts.1).separated claimed ih

theorem foldlM_refute? (reaches : v.Reaches p) (count : Nat) {rs : List Reach}
    (pending : Pending v p l rs) :
    rs.foldlM (refute? q (Traversal.nextThresholds q.data v) p) (l, count) =
      some (rs.foldl (refute q (Traversal.nextThresholds q.data v) p) (l, count)) := by
  induction rs generalizing l count with
  | nil => rfl
  | cons r rs ih =>
    have score := pending.scores r List.mem_cons_self
    have bound := pending.bounds r List.mem_cons_self
    rw [List.foldlM_cons, refute?_eq natural numbered hl apart count score bound,
      List.foldl_cons, refute_eq q l count score bound]
    by_cases low : r.bound ≤ r.reached
    · rw [if_pos low]
      exact ih hl apart count (pending.rest fun _ _ => rfl)
    · have above := pending.above numbered low
      have claimed := Int.lt_of_le_of_lt (numbered.demand_nonneg _) above
      have corrects := corrects_correctClaim hd natural len numbered hl above reaches
      rw [if_neg low]
      exact ih corrects.formed (corrects.separated claimed apart) (count+1)
        (pending.rest fun _ other => corrects.others p other)

theorem refutePremise?_eq (reaches : v.Reaches p) (count : Nat) :
    refutePremise? q v (Traversal.nextThresholds q.data v) (l, count) p =
      some (refutePremise q v (Traversal.nextThresholds q.data v) (l, count) p) :=
  foldlM_refute? hd natural len numbered hl apart reaches count (pending_reachesOf l v p)

theorem refuteAll?_eq_of_separated : refuteAll? q l v = some (refuteAll q l v) := by
  have violated := hl.claims.mem_violated_iff (len.trans hl.width.symm) numbered
  refine foldlM_eq_some (fun state => state.1.Formed ok q.data.width ∧ state.1.Separated q) ?_
    ⟨hl, apart⟩
  rintro ⟨l', count⟩ ⟨hl', apart'⟩ p hp
  have reaches := ((violated p).mp hp).1
  have refutes := (corrected_premise hd natural len numbered hl' reaches).1
  refine ⟨refutePremise?_eq hd natural len numbered hl' apart' reaches count, ?_⟩
  rw [refutePremise_eq hd natural len numbered hl' reaches]
  exact ⟨(refutes.reduced hd natural len numbered hl').formed,
    refutes.separated hd natural len numbered hl' apart'⟩

omit natural hl apart in
theorem Refutes.lawful {l' : Lattice} (hl : l.Lawful q) (h : Refutes q v l l') : l'.Lawful q := by
  have reduced := h.reduced hd q.data.natural_self len numbered hl.formed
  exact ⟨reduced.formed, reduced.permitted hl.permitted⟩

omit natural hl apart in
theorem refuteAll?_eq (hl : l.Lawful q) : refuteAll? q l v = some (refuteAll q l v) :=
  refuteAll?_eq_of_separated hd q.data.natural_self len numbered hl.formed hl.separated

end Refute

/-! ## Rounds -/

section Rounds

variable {a : Applied} {t : Turn} (hd : q.data.Sound) (hl : l.Lawful q)

include hd hl

theorem Turn.Sound.lawful (ht : t.Sound q a l) : t.lattice.Lawful q := by
  have reduced := ht.passed.reduced hd q.data.natural_self hl.formed
  exact ⟨reduced.formed, reduced.permitted hl.permitted⟩

theorem check?_eq (ht : t.Sound q a l) (hv : v ∈ q.data.pairProfiles) :
    check? q t v = some (check q t v) := by
  have refuted := refuteAll?_eq hd (q.data.length_of_mem_pairProfiles hv) (hd.numbered_of_mem hv)
    (ht.lawful hd hl)
  rw [check?, check]
  split
  · rfl
  · dsimp only
    rw [applyTo?, refuted]
    dsimp only [apply, Option.map_some]
    rfl

theorem checkStack?_eq {stack : List Counterexample} (real : ∀ c ∈ stack, c.Real q.data)
    (ht : t.Sound q a l) : checkStack? q stack t = some (checkStack q stack t) := by
  induction stack generalizing t with
  | nil => rfl
  | cons c stack ih =>
    have hc := (real c List.mem_cons_self).profile
    have next := ht.check hc
    rw [checkStack?, checkStack, check?_eq hd hl ht hc, Option.bind_some]
    generalize check q t _ = result at next
    obtain ⟨goOn, t'⟩ := result
    cases goOn with
    | true => exact ih (fun c hc => real c (List.mem_cons_of_mem _ hc)) next.sound
    | false => rfl

theorem checkAhead?_eq {ahead : List Scores} (real : ∀ v ∈ ahead, v ∈ q.data.pairProfiles)
    (ht : t.Sound q a l) : checkAhead? q ahead t = some (checkAhead q ahead t) := by
  induction ahead generalizing t with
  | nil => rfl
  | cons v ahead ih =>
    have hv := real v List.mem_cons_self
    have next := ht.check hv
    rw [checkAhead?, checkAhead, check?_eq hd hl ht hv, Option.bind_some]
    generalize check q t v = result at next
    obtain ⟨goOn, t'⟩ := result
    cases goOn with
    | true => exact ih (fun v hv => real v (List.mem_cons_of_mem _ hv)) next.sound
    | false => rfl

theorem checkRecords?_eq (left : Nat) (ht : t.Sound q a l)
    (inside : left = 0 ∨ t.inference.nextLeft + left ≤ q.data.leftCount) :
    checkRecords? q left t = some (checkRecords q left t) := by
  induction left generalizing t with
  | zero => rfl
  | succ left ih =>
    have here : t.inference.nextLeft < q.data.leftCount := by omega
    have real : ∀ v ∈ (q.data.profilesOf t.inference.nextLeft).reverse, v ∈ q.data.pairProfiles :=
      fun v hv => q.data.mem_pairProfiles_of_mem_profilesOf here v (List.mem_reverse.mp hv)
    let turned : Turn :=
      { t with inference := { t.inference with nextLeft := t.inference.nextLeft+1 } }
    have sound : turned.Sound q a l := ⟨ht.passed, ht.ready.stack, ht.ready.ahead⟩
    have next := sound.checkAhead real
    obtain ⟨-, nextLeft, -⟩ := checkAhead_keeps q
      (q.data.profilesOf t.inference.nextLeft).reverse turned
    rw [checkRecords?, checkRecords]
    dsimp only
    rw [checkAhead?_eq hd hl real sound, Option.bind_some]
    generalize checkAhead q _ _ = result at next nextLeft
    obtain ⟨goOn, t'⟩ := result
    cases goOn with
    | true =>
      apply ih next.sound
      dsimp only [turned] at nextLeft ⊢
      omega
    | false => rfl

/-- A call of inference fails no assertion. -/
theorem run?_eq {i : Inference} {pending : Std.TreeSet Counterexample} (ready : i.Ready q.data)
    (real : ∀ c ∈ pending, c.Real q.data) :
    run? q i ⟨l, pending⟩ = some (run q i ⟨l, pending⟩) := by
  have begun : Turn.Sound q i.applied l ⟨i, l, ⟨0, 0⟩⟩ := ⟨.refl, ready⟩
  have stack : ∀ c ∈ pending.toList.reverse ++ i.stack, c.Real q.data := by
    intro c hc
    rcases List.mem_append.mp hc with hc | hc
    · exact real c (Std.TreeSet.mem_toList.mp (List.mem_reverse.mp hc))
    · exact ready.stack c hc
  have checked := begun.checkStack stack
  rw [run?, run]
  dsimp only
  rw [checkStack?_eq hd hl stack begun, Option.bind_some]
  generalize checkStack q _ _ = result at checked
  obtain ⟨goOn, t⟩ := result
  cases goOn with
  | false => rfl
  | true =>
    have passed := checked.sound.checkAhead checked.sound.ready.ahead
    dsimp only
    rw [checkAhead?_eq hd hl checked.sound.ready.ahead checked.sound, Option.bind_some]
    generalize checkAhead q _ _ = result at passed
    obtain ⟨goOn, t'⟩ := result
    cases goOn with
    | false => rfl
    | true =>
      dsimp only
      rw [checkRecords?_eq hd hl _ passed.sound (by
        dsimp only
        omega)]
      rfl

end Rounds

end MatchingDependencies.Inference
