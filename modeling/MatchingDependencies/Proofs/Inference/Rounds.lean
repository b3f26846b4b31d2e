import MatchingDependencies.Proofs.Ascending
import MatchingDependencies.Proofs.Dataset.Kinds
import MatchingDependencies.Proofs.Inference.Retention

/-!
# Rounds of inference

Inference only looks at profiles of record pairs: those of counterexamples, and
those of one left record after the other with all right records. It applies
each of them once, and a round that stops early has applied a new one. So all
that a round does, whatever its patience, is to apply such profiles.
-/

set_option autoImplicit false

namespace MatchingDependencies

instance : Std.TransOrd Counterexample :=
  inferInstanceAs (Std.TransCmp
    (compareLex (compareOn Counterexample.left) (compareOn Counterexample.right)))

instance : Std.LawfulEqOrd Counterexample where
  compare_self := Std.ReflCmp.compare_self
  eq_of_compare := by
    rintro ⟨left, right⟩ ⟨left', right'⟩ h
    obtain ⟨lefts, rights⟩ := compareLex_eq_eq.mp h
    have sameLeft : left = left' := Std.LawfulEqOrd.eq_of_compare lefts
    have sameRight : right = right' := Std.LawfulEqOrd.eq_of_compare rights
    rw [sameLeft, sameRight]

def Counterexample.Real (d : Dataset) (c : Counterexample) : Prop :=
  ∃ l r, l < d.leftCount ∧ r < d.rightCount ∧ c = ⟨d.leftRecord l, d.rightRecord r⟩

theorem Counterexample.Real.profile {d : Dataset} {c : Counterexample} (h : c.Real d) :
    d.profile c.left c.right ∈ d.pairProfiles := by
  obtain ⟨l, r, hl, hr, rfl⟩ := h
  exact Dataset.mem_pairProfiles_iff.mpr ⟨l, r, hl, hr, rfl⟩

theorem Dataset.mem_pairProfiles_of_mem_profilesOf {d : Dataset} {left : Nat}
    (hl : left < d.leftCount) : ∀ v ∈ d.profilesOf left, v ∈ d.pairProfiles := by
  intro v hv
  obtain ⟨k, hk, rfl⟩ := List.mem_map.mp (mem_of_mem_ascending hv)
  rw [d.rightKinds_get] at hk
  obtain ⟨r, hr, eq⟩ := Table.exists_member hk
  exact Dataset.mem_pairProfiles_iff.mpr ⟨left, r, hl, hr, by rw [pairProfile, rightRecord, eq]⟩

theorem Dataset.exists_mem_profilesOf (d : Dataset) (left : Nat) {right : Nat}
    (hr : right < d.rightCount) :
    ∃ u ∈ d.profilesOf left, u.ranks = (d.pairProfile (left, right)).ranks := by
  obtain ⟨k, hk, record⟩ := Table.exists_kind hr
  rw [← d.rightKinds_get] at hk
  have listed : d.pairProfile (left, right) ∈
      d.rightKinds.get.map fun k => d.profile (d.leftRecord left) k.record :=
    List.mem_map.mpr ⟨k, hk, by rw [record]; rfl⟩
  obtain ⟨u, hu, same⟩ := exists_mem_ascending listed
  exact ⟨u, hu, (Scores.ranks_eq_of_compare same).symm⟩

namespace Inference

/-- What inference is to look at comes from record pairs. -/
structure Ready (d : Dataset) (i : Inference) : Prop where
  stack : ∀ c ∈ i.stack, c.Real d
  ahead : ∀ v ∈ i.ahead, v ∈ d.pairProfiles

abbrev Applied := Std.HashSet (List UInt64)

variable {q : Setting} {a a' a'' : Applied} {l l' l'' : Lattice} {t : Turn}

/-- Profiles of record pairs are applied that were not applied before. -/
inductive Passed (q : Setting) (a : Applied) (l : Lattice) : Applied → Lattice → Prop
  | refl : Passed q a l a l
  | apply {a' : Applied} {l' : Lattice} {v : Scores} (h : Passed q a l a' l')
      (hv : v ∈ q.data.pairProfiles) (new : a'.contains v.ranks = false) :
      Passed q a l (a'.insert v.ranks) (refuteAll q l' v).1

theorem Passed.size_le (h : Passed q a l a' l') : a.size ≤ a'.size := by
  induction h with
  | refl => exact Nat.le_refl _
  | apply _ _ new ih =>
    rw [Std.HashSet.size_insert, if_neg (by simpa using new)]
    exact Nat.le_succ_of_le ih

theorem Passed.known (h : Passed q a l a' l')
    (before : ∀ ranks ∈ a, ∃ v ∈ q.data.pairProfiles, v.ranks = ranks) :
    ∀ ranks ∈ a', ∃ v ∈ q.data.pairProfiles, v.ranks = ranks := by
  induction h with
  | refl => exact before
  | @apply a' l' v _ hv _ ih =>
    intro ranks mem
    rcases Std.HashSet.mem_insert.mp mem with same | old
    · exact ⟨v, hv, eq_of_beq same⟩
    · exact ih ranks old

theorem size_le_totalPairs {d : Dataset}
    (known : ∀ ranks ∈ a, ∃ v ∈ d.pairProfiles, v.ranks = ranks) : a.size ≤ d.totalPairs := by
  have distinct : a.toList.Nodup :=
    Std.HashSet.distinct_toList.imp fun differ same => by simp [same] at differ
  have inside : ∀ ranks ∈ a.toList, ranks ∈ d.pairProfiles.map Scores.ranks := by
    intro ranks mem
    obtain ⟨v, hv, eq⟩ := known ranks (Std.HashSet.mem_toList.mp mem)
    exact List.mem_map.mpr ⟨v, hv, eq⟩
  simpa using distinct.length_le_of_subset inside

/-! ## What is still to be looked at -/

theorem check_keeps (q : Setting) (t : Turn) (v : Scores) :
    (check q t v).2.inference.stack = t.inference.stack ∧
      (check q t v).2.inference.ahead = t.inference.ahead ∧
      (check q t v).2.inference.nextLeft = t.inference.nextLeft := by
  rw [check]
  split
  · exact ⟨rfl, rfl, rfl⟩
  · dsimp only [apply]
    split <;> exact ⟨rfl, rfl, rfl⟩

theorem checkAhead_keeps (q : Setting) (ahead : List Scores) (t : Turn) :
    (checkAhead q ahead t).2.inference.stack = t.inference.stack ∧
      (checkAhead q ahead t).2.inference.nextLeft = t.inference.nextLeft ∧
      ((checkAhead q ahead t).1 = true → (checkAhead q ahead t).2.inference.ahead = []) := by
  induction ahead generalizing t with
  | nil => exact ⟨rfl, rfl, fun _ => rfl⟩
  | cons v ahead ih =>
    obtain ⟨stack, -, nextLeft⟩ := check_keeps q t v
    rw [checkAhead]
    generalize check q t v = result at stack nextLeft
    obtain ⟨goOn, t'⟩ := result
    cases goOn with
    | true =>
      obtain ⟨stack', nextLeft', done⟩ := ih t'
      exact ⟨stack'.trans stack, nextLeft'.trans nextLeft, done⟩
    | false => exact ⟨stack, nextLeft, nofun⟩

theorem checkRecords_done (q : Setting) (left : Nat) (t : Turn) (stack : t.inference.stack = [])
    (ahead : t.inference.ahead = []) (done : (checkRecords q left t).1 = true) :
    (checkRecords q left t).2.inference.stack = [] ∧
      (checkRecords q left t).2.inference.ahead = [] ∧
      (checkRecords q left t).2.inference.nextLeft = t.inference.nextLeft + left := by
  induction left generalizing t with
  | zero => exact ⟨stack, ahead, rfl⟩
  | succ left ih =>
    obtain ⟨stack', nextLeft, none⟩ := checkAhead_keeps q
      (q.data.profilesOf t.inference.nextLeft).reverse
      { t with inference := { t.inference with nextLeft := t.inference.nextLeft+1 } }
    rw [checkRecords] at done ⊢
    dsimp only at done stack' nextLeft none ⊢
    generalize checkAhead q _ _ = result at done stack' nextLeft none ⊢
    obtain ⟨goOn, t'⟩ := result
    cases goOn with
    | true =>
      obtain ⟨stack'', ahead', last⟩ := ih t' (stack'.trans stack) (none rfl) done
      refine ⟨stack'', ahead', last.trans ?_⟩
      rw [nextLeft]
      omega
    | false => nomatch done

theorem checkStack_done (q : Setting) (stack : List Counterexample) (t : Turn)
    (done : (checkStack q stack t).1 = true) : (checkStack q stack t).2.inference.stack = [] := by
  induction stack generalizing t with
  | nil => rfl
  | cons c stack ih =>
    rw [checkStack] at done ⊢
    generalize check q t _ = result at done ⊢
    obtain ⟨goOn, t'⟩ := result
    cases goOn with
    | true => exact ih t' done
    | false => nomatch done

theorem run_exhausts (q : Setting) (i : Inference) (w : Workspace) (done : (run q i w).1 = true) :
    (run q i w).2.1.stack = [] ∧ (run q i w).2.1.isExhausted q.data = true := by
  have stacked := checkStack_done q (w.pending.toList.reverse ++ i.stack) ⟨i, w.lattice, ⟨0, 0⟩⟩
  rw [run] at done ⊢
  dsimp only at done ⊢
  generalize checkStack q _ _ = result at done stacked ⊢
  obtain ⟨goOn, t⟩ := result
  cases goOn with
  | false => nomatch done
  | true =>
    obtain ⟨stack, -, none⟩ := checkAhead_keeps q t.inference.ahead t
    dsimp only at done stacked ⊢
    generalize checkAhead q _ _ = result at done stack none ⊢
    obtain ⟨goOn, t'⟩ := result
    cases goOn with
    | false => nomatch done
    | true =>
      obtain ⟨stack', ahead, last⟩ := checkRecords_done q
        (q.data.leftCount - t'.inference.nextLeft) t' (stack.trans (stacked rfl)) (none rfl) done
      refine ⟨stack', ?_⟩
      rw [isExhausted, Bool.and_eq_true, decide_eq_true_iff, List.isEmpty_iff]
      refine ⟨?_, ahead⟩
      dsimp only at last ⊢
      omega

structure Turn.Sound (q : Setting) (a : Applied) (l : Lattice) (t : Turn) : Prop where
  passed : Passed q a l t.inference.applied t.lattice
  ready : t.inference.Ready q.data

structure Turn.Ends (q : Setting) (a : Applied) (l : Lattice) (result : Bool × Turn) : Prop where
  sound : result.2.Sound q a l
  stopped : result.1 = false → a.size < result.2.inference.applied.size

namespace Turn.Sound

theorem check (ht : t.Sound q a l) {v : Scores} (hv : v ∈ q.data.pairProfiles) :
    Turn.Ends q a l (check q t v) := by
  rw [Inference.check]
  split
  · exact ⟨ht, nofun⟩
  · next new =>
    have new : t.inference.applied.contains v.ranks = false := by simpa using new
    have passed := ht.passed.apply hv new
    have size : a.size < (t.inference.applied.insert v.ranks).size := by
      rw [Std.HashSet.size_insert, if_neg (by simpa using new)]
      exact Nat.lt_succ_of_le ht.passed.size_le
    dsimp only [Inference.apply]
    split
    · exact ⟨⟨passed, ht.ready.stack, ht.ready.ahead⟩, fun _ => size⟩
    · exact ⟨⟨passed, ht.ready.stack, ht.ready.ahead⟩, nofun⟩

theorem checkStack {stack : List Counterexample} (real : ∀ c ∈ stack, c.Real q.data)
    (ht : t.Sound q a l) : Turn.Ends q a l (checkStack q stack t) := by
  induction stack generalizing t with
  | nil =>
    exact ⟨⟨ht.passed, by simp [Inference.checkStack], ht.ready.ahead⟩, nofun⟩
  | cons c stack ih =>
    have rest := fun c hc => real c (List.mem_cons_of_mem _ hc)
    have next := ht.check (real c List.mem_cons_self).profile
    rw [Inference.checkStack]
    generalize Inference.check q t _ = result at next
    obtain ⟨goOn, t'⟩ := result
    cases goOn with
    | true => exact ih rest next.sound
    | false => exact ⟨⟨next.sound.passed, rest, next.sound.ready.ahead⟩, next.stopped⟩

theorem checkAhead {ahead : List Scores} (real : ∀ v ∈ ahead, v ∈ q.data.pairProfiles)
    (ht : t.Sound q a l) : Turn.Ends q a l (checkAhead q ahead t) := by
  induction ahead generalizing t with
  | nil => exact ⟨⟨ht.passed, ht.ready.stack, by simp [Inference.checkAhead]⟩, nofun⟩
  | cons v ahead ih =>
    have rest := fun v hv => real v (List.mem_cons_of_mem _ hv)
    have next := ht.check (real v List.mem_cons_self)
    rw [Inference.checkAhead]
    generalize Inference.check q t _ = result at next
    obtain ⟨goOn, t'⟩ := result
    cases goOn with
    | true => exact ih rest next.sound
    | false => exact ⟨⟨next.sound.passed, next.sound.ready.stack, rest⟩, next.stopped⟩

theorem checkRecords (left : Nat) (ht : t.Sound q a l)
    (inside : left = 0 ∨ t.inference.nextLeft + left ≤ q.data.leftCount) :
    Turn.Ends q a l (checkRecords q left t) := by
  induction left generalizing t with
  | zero => exact ⟨ht, nofun⟩
  | succ left ih =>
    have here : t.inference.nextLeft < q.data.leftCount := by omega
    have real : ∀ v ∈ (q.data.profilesOf t.inference.nextLeft).reverse, v ∈ q.data.pairProfiles :=
      fun v hv => q.data.mem_pairProfiles_of_mem_profilesOf here v (List.mem_reverse.mp hv)
    let turned : Turn :=
      { t with inference := { t.inference with nextLeft := t.inference.nextLeft+1 } }
    have sound : turned.Sound q a l := ⟨ht.passed, ht.ready.stack, ht.ready.ahead⟩
    have next := sound.checkAhead real
    obtain ⟨-, nextLeft, -⟩ := checkAhead_keeps q
      (q.data.profilesOf t.inference.nextLeft).reverse turned
    rw [Inference.checkRecords]
    dsimp only
    generalize Inference.checkAhead q _ _ = result at next nextLeft
    obtain ⟨goOn, t'⟩ := result
    cases goOn with
    | true =>
      apply ih next.sound
      dsimp only [turned] at nextLeft ⊢
      omega
    | false => exact next

end Turn.Sound

/-- A call of inference takes over what is pending and applies profiles of record
pairs. If it stops early then it has applied something. -/
theorem run_passed {i : Inference} {w : Workspace} (ready : i.Ready q.data)
    (pending : ∀ c ∈ w.pending, c.Real q.data) :
    Passed q i.applied w.lattice (run q i w).2.1.applied (run q i w).2.2.lattice ∧
      (run q i w).2.1.Ready q.data ∧ (run q i w).2.2.pending = ∅ ∧
      ((run q i w).1 = false → i.applied.size < (run q i w).2.1.applied.size) := by
  have begun : Turn.Sound q i.applied w.lattice ⟨i, w.lattice, ⟨0, 0⟩⟩ := ⟨.refl, ready⟩
  have stack : ∀ c ∈ w.pending.toList.reverse ++ i.stack, c.Real q.data := by
    intro c hc
    rcases List.mem_append.mp hc with hc | hc
    · exact pending c (Std.TreeSet.mem_toList.mp (List.mem_reverse.mp hc))
    · exact ready.stack c hc
  have checked := begun.checkStack stack
  rw [run]
  dsimp only
  generalize Inference.checkStack q _ _ = result at checked
  obtain ⟨goOn, t⟩ := result
  cases goOn with
  | false => exact ⟨checked.sound.passed, checked.sound.ready, rfl, checked.stopped⟩
  | true =>
    have passed := checked.sound.checkAhead checked.sound.ready.ahead
    dsimp only
    generalize Inference.checkAhead q _ _ = result at passed
    obtain ⟨goOn, t'⟩ := result
    cases goOn with
    | false => exact ⟨passed.sound.passed, passed.sound.ready, rfl, passed.stopped⟩
    | true =>
      have finished := passed.sound.checkRecords (q.data.leftCount - t'.inference.nextLeft) (by
        dsimp only
        omega)
      exact ⟨finished.sound.passed, finished.sound.ready, rfl, finished.stopped⟩

/-! ## What applying profiles keeps -/

section Passed

variable (hd : q.data.Sound)

include hd

theorem Passed.reduced {ok : Path.Allowed} (natural : ∀ c t, q.data.Natural c t → ok c t)
    (hl : l.Formed ok q.data.width) (h : Passed q a l a' l') : Reduced ok q l l' := by
  induction h with
  | refl => exact .refl hl
  | apply _ hv _ ih =>
    have len := q.data.length_of_mem_pairProfiles hv
    have numbered := hd.numbered_of_mem hv
    have refutes := (refuteAll_refutes hd natural len numbered ih.formed).1
    exact ih.trans (refutes.reduced hd natural len numbered ih.formed)

theorem Passed.heeds {ok : Path.Allowed} (natural : ∀ c t, q.data.Natural c t → ok c t)
    (hl : l.Formed ok q.data.width) (h : Passed q a l a' l')
    (before : ∀ v ∈ q.data.pairProfiles, a.contains v.ranks = true → l.Heeds v) :
    ∀ v ∈ q.data.pairProfiles, a'.contains v.ranks = true → l'.Heeds v := by
  induction h with
  | refl => exact before
  | @apply a' l' w passed hw _ ih =>
    have formed := (passed.reduced hd natural hl).formed
    have len := q.data.length_of_mem_pairProfiles hw
    have numbered := hd.numbered_of_mem hw
    obtain ⟨refutes, heeded⟩ := refuteAll_refutes hd natural len numbered formed
    have entails := (refutes.reduced hd natural len numbered formed).entails
    intro v hv applied
    rw [Std.HashSet.contains_insert, Bool.or_eq_true, beq_iff_eq] at applied
    rcases applied with same | applied
    · exact heeded.of_ranks same.symm
    · exact (ih v hv applied).entailed entails (hd.numbered_of_mem hv)

theorem Passed.covers (hl : l.Sound q) (hc : l.Covers q) (h : Passed q a l a' l') :
    l'.Covers q := by
  induction h with
  | refl => exact hc
  | apply before hv _ ih =>
    have sound := (before.reduced hd q.data.natural_self hl.formed).sound hl
    have len := q.data.length_of_mem_pairProfiles hv
    have numbered := hd.numbered_of_mem hv
    have refutes := (refuteAll_refutes hd q.data.natural_self len numbered sound.formed).1
    exact refutes.covers hd hv sound ih

end Passed

end Inference

end MatchingDependencies
