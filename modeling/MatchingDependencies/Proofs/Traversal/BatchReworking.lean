import MatchingDependencies.Proofs.Traversal.Reworking

/-!
# What the corrections of a batch do together

The candidates of a batch are validated together and corrected one after the
other. No column match is asked for at two comparable premises, so no
correction touches a claim of another candidate, and each candidate finds its
bounds as validation has seen them.
-/

set_option autoImplicit false

namespace MatchingDependencies.Traversal

open MatchingDependencies.Path (Allowed)

variable {ok : Allowed} {q : Setting} {validated l l' l'' : Lattice} {batch : List Candidate}
  {c a : Candidate} {g : Path} {i : Nat}

/-- Candidates of which no two ask for a column match at comparable premises. -/
structure Apart (batch : List Candidate) : Prop where
  distinct : batch.Pairwise fun a b => a.path ≠ b.path
  antichain : ∀ a ∈ batch, ∀ b ∈ batch, ∀ i, i ∈ a.indices → i ∈ b.indices →
    a.path.Generalizes b.path → a.path = b.path

theorem Apart.tail {c : Candidate} (h : Apart (c::batch)) : Apart batch :=
  ⟨(List.pairwise_cons.mp h.distinct).2, fun a ha b hb =>
    h.antichain a (List.mem_cons_of_mem _ ha) b (List.mem_cons_of_mem _ hb)⟩

def Untouchable (batch : List Candidate) (c : Candidate) (i : Nat) : Prop :=
  ∀ a ∈ batch, a.path ≠ c.path ∧ (i ∈ a.indices → a.path.Generalizes c.path → a.path = c.path)

theorem Apart.untouchable_head (h : Apart (c::batch)) (hi : i ∈ c.indices) :
    Untouchable batch c i := by
  intro a ha
  refine ⟨Ne.symm ((List.pairwise_cons.mp h.distinct).1 a ha), fun hi' => ?_⟩
  exact h.antichain a (List.mem_cons_of_mem _ ha) c List.mem_cons_self i hi' hi

theorem Apart.untouchable_tail (h : Apart (c::batch)) (ha : a ∈ batch) (hi : i ∈ a.indices) :
    Untouchable [c] a i := by
  intro b hb
  obtain rfl := List.mem_singleton.mp hb
  refine ⟨(List.pairwise_cons.mp h.distinct).1 a ha, fun hi' => ?_⟩
  exact h.antichain b List.mem_cons_self a (List.mem_cons_of_mem _ ha) i hi' hi

namespace Reworked

theorem refl (hl : l.Formed ok q.data.width) : Reworked ok q batch l l :=
  ⟨hl, .refl _, Nat.le_max_left .., fun _ h => h, fun _ h => .inl h, fun _ h => h,
    fun _ _ h => absurd rfl h⟩

theorem untouched_below (h : Reworked ok q batch l l') (apart : Untouchable batch c i)
    (general : g.Generalizes c.path) (supported : q.Supports g ∨ g = c.path) :
    l'.bound g i = l.bound g i := by
  by_cases same : l'.bound g i = l.bound g i
  · exact same
  · obtain ⟨a, ha, place⟩ := h.places same
    obtain ⟨differ, antichain⟩ := apart a ha
    rcases place with ⟨rfl, few⟩ | ⟨below, hi⟩
    · rcases supported with supported | eq
      · exact absurd supported few
      · exact absurd eq differ
    · exact absurd (antichain hi (below.trans general)) differ

theorem untouched (h : Reworked ok q batch l l') (apart : Untouchable batch c i) :
    l'.bound c.path i = l.bound c.path i :=
  h.untouched_below apart (.refl _) (.inr rfl)

theorem trans (apart : Apart (c::batch)) (hl : l.Formed ok q.data.width)
    (h : Reworked ok q [c] l l') (h' : Reworked ok q batch l' l'') :
    Reworked ok q (c::batch) l l'' := by
  have first := h.maxLevel
  have second := h'.maxLevel
  refine ⟨h'.formed, h.keeps.trans h'.keeps, by omega, fun m hm => h'.marks m (h.marks m hm),
    fun m hm => ?_, fun k hk => h'.noted k (h.noted k hk), fun g i differ => ?_⟩
  · rcases h'.marked m hm with marked | few
    · exact h.marked m marked
    · exact .inr few
  · -- Whichever of the two changes a bound last, the other one leaves what it depends on.
    by_cases second : l''.bound g i = l'.bound g i
    · rw [second] at differ
      obtain ⟨b, hb, change⟩ := h.change g i differ
      obtain rfl := List.mem_singleton.mp hb
      refine ⟨b, List.mem_cons_self, ?_⟩
      cases change with
      | lowered here reason le value =>
        refine .lowered here (reason.imp_left fun few => ?_) (second ▸ le) (second ▸ value)
        exact ⟨few.1, h'.dropped few.2.1, second.trans few.2.2⟩
      | inherited general other asked lost old permits noted =>
        refine .inherited general other asked ?_ (second.trans old) permits (h'.noted _ noted)
        rw [h'.untouched (apart.untouchable_head asked)]
        exact lost
    · obtain ⟨b, hb, change⟩ := h'.change g i second
      refine ⟨b, List.mem_cons_of_mem _ hb, ?_⟩
      cases change with
      | lowered here reason le value =>
        refine .lowered here reason ?_ value
        rcases reason with ⟨-, -, zero⟩ | asked
        · rw [zero, Score.height_zero]
          exact hl.bound_nonneg g i
        · rw [← here, h.untouched (apart.untouchable_tail hb asked)] at le
          exact here ▸ le
      | inherited general other asked lost old permits noted =>
        rw [h.untouched (apart.untouchable_tail hb asked)] at lost old permits
        exact .inherited general other asked lost old permits noted

end Reworked

theorem Live.after (h : Live ok q.data.width validated l a) (reworked : Reworked ok q [c] l l')
    (apart : ∀ i ∈ a.indices, Untouchable [c] a i) : Live ok q.data.width validated l' a := by
  refine ⟨h.proper, h.premise, reworked.keeps.isSome h.stored, h.claimed, fun i hi => ?_⟩
  rw [reworked.untouched (apart i hi)]
  exact h.same i hi

theorem SettledAt.after (h : SettledAt q validated l c) (reworked : Reworked ok q batch l l')
    (apart : ∀ i ∈ c.indices, Untouchable batch c i) : SettledAt q validated l' c := by
  refine ⟨fun few => reworked.dropped (h.1 few), fun i hi supported => ?_⟩
  rw [reworked.untouched (apart i hi)]
  exact h.2 i hi supported

structure Validated (q : Setting) (validated : Lattice)
    (validation : Candidate → Validation) (c : Candidate) : Prop where
  sound : (validation c).Sound q.data q.minSupport validated c
  changes : ∀ k ∈ (validation c).corrections, k.newBound.same k.oldBound = false
  asks : c.indices ≠ []

/-- Correcting a batch settles every candidate of it. If validation changes
anything, then a claim of a candidate is lost, and otherwise the lattice stays. -/
theorem foldl_reworked (hd : q.data.Sound) (natural : ∀ c t, q.data.Natural c t → ok c t)
    (h₀ : validated.Formed ok q.data.width) {validation : Candidate → Validation}
    (hl : l.Formed ok q.data.width) (apart : Apart batch)
    (live : ∀ c ∈ batch, Live ok q.data.width validated l c)
    (found : ∀ c ∈ batch, Validated q validated validation c) :
    Reworked ok q batch l (batch.foldl (fun l c => correct q l c (validation c)) l) ∧
      (∀ c ∈ batch, SettledAt q validated
        (batch.foldl (fun l c => correct q l c (validation c)) l) c) ∧
      ((∀ c ∈ batch, (validation c).corrections = []) ∧
          batch.foldl (fun l c => correct q l c (validation c)) l = l ∨
        ∃ c ∈ batch, ∃ i ∈ c.indices,
          ((batch.foldl (fun l c => correct q l c (validation c)) l).bound c.path i).height <
            (l.bound c.path i).height) := by
  induction batch generalizing l with
  | nil => exact ⟨.refl hl, by simp, .inl ⟨by simp, rfl⟩⟩
  | cons c batch ih =>
    have here := found c List.mem_cons_self
    obtain ⟨reworked, settled, outcome⟩ := (live c List.mem_cons_self).reworked hd natural
      here.sound h₀ hl here.changes here.asks
    -- No correction touches the claims of another candidate, so the later ones are still live.
    obtain ⟨rest, all, outcomes⟩ := ih reworked.formed apart.tail
      (fun a ha => (live a (List.mem_cons_of_mem _ ha)).after reworked
        fun i hi => apart.untouchable_tail ha hi)
      fun a ha => found a (List.mem_cons_of_mem _ ha)
    rw [List.foldl_cons]
    refine ⟨reworked.trans apart hl rest, fun a ha => ?_, ?_⟩
    · rcases List.mem_cons.mp ha with rfl | ha
      · exact settled.after rest fun i hi => apart.untouchable_head hi
      · exact all a ha
    · rcases outcome with ⟨silent, same⟩ | ⟨i, hi, lost⟩
      · rcases outcomes with ⟨silent', same'⟩ | ⟨a, ha, i, hi, lost⟩
        · exact .inl ⟨List.forall_mem_cons.mpr ⟨silent, silent'⟩, same'.trans same⟩
        · refine .inr ⟨a, List.mem_cons_of_mem _ ha, i, hi, ?_⟩
          rw [← reworked.untouched (apart.untouchable_tail ha hi)]
          exact lost
      · refine .inr ⟨c, List.mem_cons_self, i, hi, ?_⟩
        rw [rest.untouched (apart.untouchable_head hi)]
        exact lost

end MatchingDependencies.Traversal
