import Mathlib.Data.List.Nodup
import MatchingDependencies.Proofs.Inference.Refutation

/-!
# The claims that a vector contradicts

A vector contradicts the claims that it falls short of although it reaches their
premises. They are looked up once, and then the lattice is changed for each of
them in turn. The specializations that inherit their bounds are reached by the
vector no more, so that no correction touches a claim that is still to be
corrected, and each claim is counted and corrected exactly once.
-/

set_option autoImplicit false

namespace MatchingDependencies

open MatchingDependencies.Path (Allowed)

namespace ClaimLattice

variable {ok : Allowed} {l : ClaimLattice}

theorem Sound.nodup_paths (hl : l.Sound ok) : (l.entries.map (·.1)).Nodup := by
  refine (List.Nodup.of_map _ hl.numbers).map_on fun e he f hf same => ?_
  have found : l.find? f.1 = some e.2 := hl.find?_eq_some_iff.mpr (same ▸ he)
  exact Prod.ext same (Option.some.inj (found.symm.trans (hl.find?_eq_some_iff.mpr hf)))

theorem Sound.nodup_violated (hl : l.Sound ok) (v : Scores) :
    ((l.violated v).map fun e => e.1.constraints).Nodup := by
  rw [hl.violated_paths]
  exact hl.nodup_paths.sublist (List.filter_sublist.map _)

end ClaimLattice

namespace Inference

variable {ok : Allowed} {q : Setting} {l l' l'' : Lattice} {p : Path} {i : Nat} {v : Scores}

/-! ## Correcting some claims in turn -/

def Contradicts (v : Scores) (l : Lattice) (c : Path × Nat) : Prop :=
  v.Reaches c.1 ∧ v.demand c.2 < (l.bound c.1 c.2).height

/-- What correcting some claims in turn does, whatever was done before the turn
of each of them. -/
structure Corrected (q : Setting) (v : Scores) (cs : List (Path × Nat)) (l l' : Lattice) :
    Prop where
  marks : l'.unsupported = l.unsupported
  /-- A claim is replaced by what is news when its turn comes. -/
  replaced : ∀ before p i after, cs = before ++ (p, i) :: after →
    Replacement (before.foldl (correctClaim q v) l) p i (v.score i) (l'.bound p i)
  /-- When the turn of a claim comes, those before it are corrected for good. -/
  final : ∀ before after, cs = before ++ after → ∀ c ∈ before,
    (before.foldl (correctClaim q v) l).bound c.1 c.2 = l'.bound c.1 c.2
  /-- And nothing else that the vector reaches has changed by then. -/
  untouched : ∀ before after, cs = before ++ after → ∀ p i, v.Reaches p → (p, i) ∉ before →
    (before.foldl (correctClaim q v) l).bound p i = l.bound p i
  raises : ∀ p i, ¬v.Reaches p → (l.bound p i).height ≤ (l'.bound p i).height
  inherited : ∀ g i, ¬v.Reaches g → l'.bound g i ≠ l.bound g i →
    ∃ p, (p, i) ∈ cs ∧ l'.bound g i = l.bound p i ∧ Inherits q v p i (l.bound p i) g

theorem Corrected.kept {cs : List (Path × Nat)}
    (h : Corrected q v cs l (cs.foldl (correctClaim q v) l)) (reaches : v.Reaches p)
    (other : (p, i) ∉ cs) : (cs.foldl (correctClaim q v) l).bound p i = l.bound p i :=
  h.untouched cs [] (List.append_nil cs).symm p i reaches other

theorem Corrected.nil (q : Setting) (v : Scores) (l : Lattice) : Corrected q v [] l l := by
  refine ⟨rfl, fun before p i after eq => ?_, fun before after eq c hc => ?_,
    fun before after eq p i _ _ => ?_, fun _ _ _ => Int.le_refl _, fun _ _ _ h => absurd rfl h⟩
  · obtain ⟨-, more⟩ := List.append_eq_nil_iff.mp eq.symm
    cases more
  · obtain ⟨rfl, -⟩ := List.append_eq_nil_iff.mp eq.symm
    cases hc
  · obtain ⟨rfl, -⟩ := List.append_eq_nil_iff.mp eq.symm
    rfl

theorem Corrects.cons {cs : List (Path × Nat)} (reaches : v.Reaches p) (new : (p, i) ∉ cs)
    (later : ∀ c ∈ cs, v.Reaches c.1)
    (first : Corrects ok q v p i l (correctClaim q v l (p, i)))
    (rest : Corrected q v cs (correctClaim q v l (p, i))
      (cs.foldl (correctClaim q v) (correctClaim q v l (p, i)))) :
    Corrected q v ((p, i) :: cs) l (((p, i) :: cs).foldl (correctClaim q v) l) := by
  have last := rest.kept reaches new
  rw [List.foldl_cons]
  refine ⟨rest.marks.trans first.tracked.unsupported, fun before g j after eq => ?_,
    fun before after eq c hc => ?_, fun before after eq g j shown other => ?_,
    fun g j fails => Int.le_trans (first.raises g j fails) (rest.raises g j fails),
    fun g j fails differ => ?_⟩
  · cases before with
    | nil =>
      obtain ⟨⟨rfl, rfl⟩, -⟩ : (p = g ∧ i = j) ∧ cs = after := by simpa using eq
      rw [last]
      exact first.replaced
    | cons c before =>
      obtain ⟨rfl, tail⟩ := List.cons.inj eq
      exact rest.replaced before g j after tail
  · cases before with
    | nil => cases hc
    | cons d before =>
      obtain ⟨rfl, tail⟩ := List.cons.inj eq
      by_cases now : c ∈ before
      · exact rest.final before after tail c now
      · obtain rfl : c = (p, i) := (List.mem_cons.mp hc).resolve_right now
        exact (rest.untouched before after tail p i reaches now).trans last.symm
  · cases before with
    | nil => rfl
    | cons d before =>
      obtain ⟨rfl, tail⟩ := List.cons.inj eq
      obtain ⟨here, later⟩ := not_or.mp (mt List.mem_cons.mpr other)
      exact (rest.untouched before after tail g j shown later).trans (first.kept g j shown here)
  · by_cases same : (cs.foldl (correctClaim q v) (correctClaim q v l (p, i))).bound g j =
        (correctClaim q v l (p, i)).bound g j
    · rw [same] at differ ⊢
      obtain ⟨rfl, eq, inherits⟩ := first.inherited g j fails differ
      exact ⟨p, List.mem_cons_self, eq, inherits⟩
    · -- What the later ones hand on is what they had at first.
      obtain ⟨h, mem, eq, inherits⟩ := rest.inherited g j fails same
      have old : (correctClaim q v l (p, i)).bound h j = l.bound h j :=
        first.kept h j (later _ mem) fun here => new (here ▸ mem)
      rw [old] at eq inherits
      exact ⟨h, List.mem_cons_of_mem _ mem, eq, inherits⟩

/-- Claims that the vector contradicts are corrected one after the other. -/
inductive Refutes (q : Setting) (v : Scores) : Lattice → Lattice → Prop
  | refl (l : Lattice) : Refutes q v l l
  | correct {l l' : Lattice} {c : Path × Nat} (h : Refutes q v l l')
      (contradicts : Contradicts v l' c) : Refutes q v l (correctClaim q v l' c)

theorem Refutes.trans (h : Refutes q v l l') (h' : Refutes q v l' l'') : Refutes q v l l'' := by
  induction h' with
  | refl => exact h
  | correct _ contradicts ih => exact .correct ih contradicts

section Corrections

variable (hd : q.data.Sound) (natural : ∀ c t, q.data.Natural c t → ok c t)
  (len : v.length = q.data.width) (numbered : v.Numbered) (hl : l.Formed ok q.data.width)

include hd natural len numbered hl

theorem Refutes.reduced (h : Refutes q v l l') : Reduced ok q l l' := by
  induction h with
  | refl => exact .refl hl
  | correct _ contradicts ih =>
    have corrects :=
      corrects_correctClaim hd natural len numbered ih.formed contradicts.2 contradicts.1
    exact ih.trans (corrects.reduced hd len numbered ih.formed contradicts.2 contradicts.1)

theorem corrected_foldl {cs : List (Path × Nat)} (differ : cs.Nodup)
    (contradicted : ∀ c ∈ cs, Contradicts v l c) :
    Refutes q v l (cs.foldl (correctClaim q v) l) ∧
      Corrected q v cs l (cs.foldl (correctClaim q v) l) := by
  induction cs generalizing l with
  | nil => exact ⟨.refl l, .nil q v l⟩
  | cons c cs ih =>
    obtain ⟨p, i⟩ := c
    obtain ⟨new, differ⟩ := List.nodup_cons.mp differ
    have contradicts := contradicted (p, i) List.mem_cons_self
    obtain ⟨reaches, above⟩ := contradicts
    have later : ∀ c ∈ cs, v.Reaches c.1 := fun c hc =>
      (contradicted c (List.mem_cons_of_mem _ hc)).1
    have first := corrects_correctClaim hd natural len numbered hl above reaches
    obtain ⟨refutes, rest⟩ := ih first.formed differ fun c hc => by
      refine ⟨later c hc, ?_⟩
      rw [first.kept c.1 c.2 (later c hc) fun here => new (here ▸ hc)]
      exact (contradicted c (List.mem_cons_of_mem _ hc)).2
    exact ⟨(Refutes.correct (.refl l) ⟨reaches, above⟩).trans refutes,
      first.cons reaches new later rest⟩

end Corrections

/-! ## What a vector reaches -/

def reachesOf (l : Lattice) (v : Scores) (p : Path) : List Reach :=
  v.zipIdx.map fun (s, i) => ⟨i, s, (((l.find? p).map Node.bounds).getD #[]).getD i 0⟩

theorem refutePremise_eq_foldl (q : Setting) (v : Scores) (failed : Path) (state : Lattice × Nat)
    (p : Path) : refutePremise q v failed state p =
      (reachesOf state.1 v p).foldl (refute q failed p) state := rfl

theorem mem_reachesOf_iff {r : Reach} : r ∈ reachesOf l v p ↔
    v[r.index]? = some r.reached ∧ r.bound = l.bound p r.index := by
  simp only [reachesOf, List.mem_map, List.mem_zipIdx_iff_getElem?, Prod.exists, l.getD_bounds]
  constructor
  · rintro ⟨s, i, found, rfl⟩
    exact ⟨found, rfl⟩
  · rintro ⟨found, bound⟩
    exact ⟨r.reached, r.index, found, by rw [← bound]⟩

theorem reached_of_mem {r : Reach} (hr : r ∈ reachesOf l v p) : r.reached = v.score r.index := by
  rw [Scores.score_eq_getD, List.getD_eq_getElem?_getD, (mem_reachesOf_iff.mp hr).1]
  rfl

theorem nodup_reachesOf (l : Lattice) (v : Scores) (p : Path) :
    ((reachesOf l v p).map Reach.index).Nodup := by
  rw [reachesOf, List.map_map]
  exact (v.zipIdx_map_snd 0).symm ▸ List.nodup_range'

structure Pending (v : Scores) (p : Path) (l : Lattice) (rs : List Reach) : Prop where
  scores : ∀ r ∈ rs, r.reached = v.score r.index
  bounds : ∀ r ∈ rs, r.bound = l.bound p r.index
  differ : (rs.map Reach.index).Nodup

theorem pending_reachesOf (l : Lattice) (v : Scores) (p : Path) :
    Pending v p l (reachesOf l v p) :=
  ⟨fun _ hr => reached_of_mem hr, fun _ hr => (mem_reachesOf_iff.mp hr).2, nodup_reachesOf l v p⟩

theorem Pending.rest {r : Reach} {rs : List Reach} (h : Pending v p l (r::rs))
    (others : ∀ j, j ≠ r.index → l'.bound p j = l.bound p j) : Pending v p l' rs := by
  obtain ⟨here, differ⟩ := List.nodup_cons.mp h.differ
  refine ⟨fun s hs => h.scores s (List.mem_cons_of_mem _ hs), fun s hs => ?_, differ⟩
  have other : s.index ≠ r.index := fun eq => here (eq ▸ List.mem_map_of_mem hs)
  exact (h.bounds s (List.mem_cons_of_mem _ hs)).trans (others s.index other).symm

theorem Pending.above {r : Reach} {rs : List Reach} (h : Pending v p l (r::rs))
    (numbered : v.Numbered)
    (short : ¬r.bound ≤ r.reached) : v.demand r.index < (l.bound p r.index).height := by
  rwa [h.scores r List.mem_cons_self, h.bounds r List.mem_cons_self, numbered.le_score_iff,
    Int.not_le] at short

/-! ## Finding the claims -/

def shortfalls (p : Path) (rs : List Reach) : List (Path × Nat) :=
  (rs.filter fun r => !(r.bound ≤ r.reached)).map fun r => (p, r.index)

def contradictedAt (l : Lattice) (v : Scores) (p : Path) : List (Path × Nat) :=
  shortfalls p (reachesOf l v p)

def contradicted (l : Lattice) (v : Scores) : List (Path × Nat) :=
  ((l.violated v).map fun e => e.1.constraints).flatMap (contradictedAt l v)

theorem contradictedAt_congr (same : ∀ i, l'.bound p i = l.bound p i) :
    contradictedAt l' v p = contradictedAt l v p := by
  simp only [contradictedAt, reachesOf, Lattice.getD_bounds, same]

theorem nodup_contradictedAt (l : Lattice) (v : Scores) (p : Path) :
    (contradictedAt l v p).Nodup := by
  have columns : (((reachesOf l v p).filter fun r => !(r.bound ≤ r.reached)).map
      Reach.index).Nodup := (nodup_reachesOf l v p).sublist (List.filter_sublist.map _)
  have pairs := columns.map (f := Prod.mk p) fun _ _ same => (Prod.mk.inj same).2
  rwa [List.map_map] at pairs

section Contradicted

variable (len : v.length = q.data.width) (numbered : v.Numbered) (hl : l.Formed ok q.data.width)

include len numbered hl

theorem mem_contradictedAt_iff (c : Path × Nat) :
    c ∈ contradictedAt l v p ↔ c.1 = p ∧ v.demand c.2 < (l.bound p c.2).height := by
  rw [contradictedAt, shortfalls, List.mem_map]
  constructor
  · rintro ⟨r, hr, rfl⟩
    obtain ⟨hr, short⟩ := List.mem_filter.mp hr
    rw [reached_of_mem hr, (mem_reachesOf_iff.mp hr).2] at short
    simpa [numbered.le_score_iff] using short
  · obtain ⟨g, i⟩ := c
    rintro ⟨rfl, above⟩
    have claimed := Int.lt_of_le_of_lt (numbered.demand_nonneg i) above
    have hi : i < v.length := len ▸ (hl.stored_of_bound claimed).2.2
    have hr : (⟨i, v[i], l.bound g i⟩ : Reach) ∈ reachesOf l v g :=
      mem_reachesOf_iff.mpr ⟨List.getElem?_eq_getElem hi, rfl⟩
    refine ⟨_, List.mem_filter.mpr ⟨hr, ?_⟩, rfl⟩
    rw [reached_of_mem hr]
    simpa [numbered.le_score_iff] using above

theorem mem_contradicted_iff (c : Path × Nat) : c ∈ contradicted l v ↔ Contradicts v l c := by
  have violated := hl.claims.mem_violated_iff (len.trans hl.width.symm) numbered
  rw [contradicted, List.mem_flatMap]
  constructor
  · rintro ⟨p, hp, hc⟩
    obtain ⟨rfl, above⟩ := (mem_contradictedAt_iff len numbered hl c).mp hc
    exact ⟨((violated _).mp hp).1, above⟩
  · intro h
    exact ⟨c.1, (violated c.1).mpr ⟨h.1, c.2, h.2⟩,
      (mem_contradictedAt_iff len numbered hl c).mpr ⟨rfl, h.2⟩⟩

theorem nodup_contradicted : (contradicted l v).Nodup := by
  refine List.nodup_flatMap.mpr ⟨fun p _ => nodup_contradictedAt l v p, ?_⟩
  refine (hl.claims.nodup_violated v).imp fun differ c hp hq => differ ?_
  rw [← ((mem_contradictedAt_iff len numbered hl c).mp hp).1,
    ← ((mem_contradictedAt_iff len numbered hl c).mp hq).1]

end Contradicted

/-! ## Correcting all claims -/

theorem refute_eq (q : Setting) (l : Lattice) (count : Nat) {r : Reach}
    (score : r.reached = v.score r.index) (bound : r.bound = l.bound p r.index) :
    refute q (Traversal.nextThresholds q.data v) p (l, count) r =
      if r.bound ≤ r.reached then (l, count)
      else (correctClaim q v l (p, r.index), count+1) := by
  rw [refute, correctClaim, score, bound]
  rfl

section Corrections

variable (hd : q.data.Sound) (natural : ∀ c t, q.data.Natural c t → ok c t)
  (len : v.length = q.data.width) (numbered : v.Numbered)

include hd natural len numbered

theorem foldl_refute_eq (hl : l.Formed ok q.data.width) (reaches : v.Reaches p) (count : Nat)
    {rs : List Reach} (pending : Pending v p l rs) :
    rs.foldl (refute q (Traversal.nextThresholds q.data v) p) (l, count) =
      ((shortfalls p rs).foldl (correctClaim q v) l, count + (shortfalls p rs).length) := by
  induction rs generalizing l count with
  | nil => rfl
  | cons r rs ih =>
    have score := pending.scores r List.mem_cons_self
    have bound := pending.bounds r List.mem_cons_self
    rw [List.foldl_cons, refute_eq q l count score bound]
    by_cases low : r.bound ≤ r.reached
    · have skipped : shortfalls p (r::rs) = shortfalls p rs := by simp [shortfalls, low]
      rw [if_pos low, skipped]
      exact ih hl count (pending.rest fun _ _ => rfl)
    · have taken : shortfalls p (r::rs) = (p, r.index) :: shortfalls p rs := by
        simp [shortfalls, low]
      have corrects :=
        corrects_correctClaim hd natural len numbered hl (pending.above numbered low) reaches
      have rest := pending.rest fun _ other => corrects.others p other
      rw [if_neg low, taken, ih corrects.formed (count+1) rest, List.foldl_cons, List.length_cons]
      congr 1
      omega

theorem refutePremise_eq (hl : l.Formed ok q.data.width) (reaches : v.Reaches p) (count : Nat) :
    refutePremise q v (Traversal.nextThresholds q.data v) (l, count) p =
      ((contradictedAt l v p).foldl (correctClaim q v) l,
        count + (contradictedAt l v p).length) := by
  rw [refutePremise_eq_foldl]
  exact foldl_refute_eq hd natural len numbered hl reaches count (pending_reachesOf l v p)

theorem corrected_premise (hl : l.Formed ok q.data.width) (reaches : v.Reaches p) :
    Refutes q v l ((contradictedAt l v p).foldl (correctClaim q v) l) ∧
      Corrected q v (contradictedAt l v p) l ((contradictedAt l v p).foldl (correctClaim q v) l) :=
  corrected_foldl hd natural len numbered hl (nodup_contradictedAt l v p) fun c hc => by
    obtain ⟨rfl, above⟩ := (mem_contradictedAt_iff len numbered hl c).mp hc
    exact ⟨reaches, above⟩

theorem foldl_refutePremise_eq (hl : l.Formed ok q.data.width) {ps : List Path} (differ : ps.Nodup)
    (reaches : ∀ p ∈ ps, v.Reaches p) (count : Nat) :
    ps.foldl (refutePremise q v (Traversal.nextThresholds q.data v)) (l, count) =
      ((ps.flatMap (contradictedAt l v)).foldl (correctClaim q v) l,
        count + (ps.flatMap (contradictedAt l v)).length) := by
  induction ps generalizing l count with
  | nil => rfl
  | cons p ps ih =>
    obtain ⟨new, differ⟩ := List.nodup_cons.mp differ
    have here := reaches p List.mem_cons_self
    have later : ∀ g ∈ ps, v.Reaches g := fun g hg => reaches g (List.mem_cons_of_mem _ hg)
    obtain ⟨refutes, corrected⟩ := corrected_premise hd natural len numbered hl here
    have formed := (refutes.reduced hd natural len numbered hl).formed
    have same : ∀ g ∈ ps, contradictedAt ((contradictedAt l v p).foldl (correctClaim q v) l) v g =
        contradictedAt l v g := by
      refine fun g hg => contradictedAt_congr fun i => corrected.kept (later g hg) fun hc => new ?_
      exact ((mem_contradictedAt_iff len numbered hl _).mp hc).1 ▸ hg
    rw [List.foldl_cons, refutePremise_eq hd natural len numbered hl here, ih formed differ later,
      List.flatMap_congr same, List.flatMap_cons, List.foldl_append, List.length_append,
      Nat.add_assoc]

theorem refuteAll_eq (hl : l.Formed ok q.data.width) :
    refuteAll q l v =
      ((contradicted l v).foldl (correctClaim q v) l, (contradicted l v).length) := by
  have violated := hl.claims.mem_violated_iff (len.trans hl.width.symm) numbered
  have all := foldl_refutePremise_eq hd natural len numbered hl (hl.claims.nodup_violated v)
    (fun p hp => ((violated p).mp hp).1) 0
  rw [Nat.zero_add] at all
  exact all

/-- Afterwards the vector does not contradict any claim. -/
theorem refuteAll_refutes (hl : l.Formed ok q.data.width) :
    Refutes q v l (refuteAll q l v).1 ∧ (refuteAll q l v).1.Heeds v := by
  have listed := mem_contradicted_iff len numbered hl
  obtain ⟨refutes, corrected⟩ := corrected_foldl hd natural len numbered hl
    (nodup_contradicted len numbered hl) fun c hc => (listed c).mp hc
  rw [refuteAll_eq hd natural len numbered hl]
  refine ⟨refutes, fun g i reaches => ?_⟩
  by_cases mem : (g, i) ∈ contradicted l v
  · obtain ⟨before, after, eq⟩ := List.append_of_mem mem
    exact (corrected.replaced before g i after eq).low numbered
  · dsimp only
    rw [corrected.kept reaches mem]
    exact Int.not_lt.mp fun above => mem ((listed (g, i)).mpr ⟨reaches, above⟩)

end Corrections

end Inference

end MatchingDependencies
