import MatchingDependencies.Proofs.Schedule.Slots

/-!
# What a picker picks

Offers may come in any order and name a premise more than once. A column match
is picked at a premise exactly if it was offered there and at no premise that is
strictly more general. This does not depend on the order of the offers.
-/

set_option autoImplicit false

namespace MatchingDependencies

open MatchingDependencies.Batch (Requested)

def AskedAt (candidates : List Candidate) (premise : Scores) (i : Nat) : Prop :=
  ∃ c ∈ candidates, c.premise.same premise = true ∧ i ∈ c.indices

variable {width : Nat} {candidates offers : List Candidate} {premise : Scores} {i : Nat}

theorem AskedAt.isVector (h : ∀ c ∈ candidates, c.premise.IsVector width)
    (asked : AskedAt candidates premise i) : premise.IsVector width := by
  obtain ⟨c, hc, same, -⟩ := asked
  exact (h c hc).of_same same

theorem askedAt_iff (h : ∀ c ∈ candidates, c.premise.IsVector width)
    (hp : premise.IsVector width) :
    AskedAt candidates premise i ↔ Requested candidates premise.constraints i := by
  apply exists_congr
  intro c
  apply and_congr_right
  intro hc
  rw [(h c hc).same_iff hp]

theorem Batch.Requested.askedAt (h : ∀ c ∈ candidates, c.premise.IsVector width) {p : Path}
    (requested : Requested candidates p i) :
    ∃ premise : Scores, premise.IsVector width ∧ premise.constraints = p ∧
      AskedAt candidates premise i := by
  obtain ⟨c, hc, rfl, hi⟩ := requested
  exact ⟨c.premise, h c hc, rfl, c, hc, ((h c hc).same_iff (h c hc)).mpr rfl, hi⟩

namespace Picker

def pick (offers : List Candidate) : List Candidate × Picker :=
  (offers.foldl offer empty).takeAll

/-- What was taken is what was offered at most general premises. -/
structure Picks (offers : List Candidate) (taken : List Candidate × Picker) : Prop where
  once : taken.1.Pairwise fun a b => a.premise.same b.premise = false
  some : ∀ c ∈ taken.1, c.indices ≠ []
  exactly : ∀ premise i, AskedAt taken.1 premise i ↔ AskedAt offers premise i ∧
    ∀ g, g.StrictlyGeneralizes premise → ¬AskedAt offers g i
  incomparable : ∀ g premise i, AskedAt taken.1 g i → AskedAt taken.1 premise i →
    ¬g.StrictlyGeneralizes premise
  covered : ∀ premise i, AskedAt offers premise i →
    ∃ g, g.generalizes premise = true ∧ AskedAt taken.1 g i
  empty : taken.2 = Picker.empty

section Pick

variable (h : ∀ c ∈ offers, c.premise.IsVector width)

include h

theorem offers_proper : ∀ c ∈ offers, Path.Proper Scores.positives 0 c.path :=
  fun c hc => (h c hc).constraints_proper

theorem sound_offered :
    Batch.Sound Scores.positives offers (offers.foldl Picker.offer .empty).batch := by
  rw [batch_offers Scores.positives_positive (offers_proper h)]
  exact Batch.sound_foldl Scores.positives_positive (Batch.sound_nil _) offers (offers_proper h)

theorem pick_isVector : ∀ c ∈ (pick offers).1, c.premise.IsVector width := by
  intro c hc
  obtain ⟨accepted, -⟩ := (Batch.mem_selected_iff _ c).mp hc
  obtain ⟨o, ho, premise, -⟩ := (sound_offered h).offered c accepted
  exact premise ▸ h o ho

theorem requested_pick_iff (p : Path) (i : Nat) : Requested (pick offers).1 p i ↔
    Requested offers p i ∧ ∀ g, Requested offers g i → g.Generalizes p → g = p := by
  rw [← (sound_offered h).asks_iff Scores.positives_positive (offers_proper h)]
  exact Batch.requested_selected_iff _ p i

theorem askedAt_pick_iff (premise : Scores) (i : Nat) : AskedAt (pick offers).1 premise i ↔
    AskedAt offers premise i ∧ ∀ g, g.StrictlyGeneralizes premise → ¬AskedAt offers g i := by
  constructor
  · intro asked
    have hp := asked.isVector (pick_isVector h)
    rw [askedAt_iff (pick_isVector h) hp, requested_pick_iff h] at asked
    obtain ⟨requested, least⟩ := asked
    constructor
    · exact (askedAt_iff h hp).mpr requested
    · intro g strict offered
      have hg := offered.isVector h
      obtain ⟨general, differ⟩ := (hg.strictlyGeneralizes_iff hp).mp strict
      exact differ (least _ ((askedAt_iff h hg).mp offered) general)
  · rintro ⟨offered, none⟩
    have hp := offered.isVector h
    rw [askedAt_iff (pick_isVector h) hp, requested_pick_iff h]
    constructor
    · exact (askedAt_iff h hp).mp offered
    · intro p requested general
      obtain ⟨g, hg, rfl, asked⟩ := requested.askedAt h
      exact Classical.byContradiction fun differ =>
        none g ((hg.strictlyGeneralizes_iff hp).mpr ⟨general, differ⟩) asked

theorem exists_askedAt_pick (offered : AskedAt offers premise i) :
    ∃ g, g.generalizes premise = true ∧ AskedAt (pick offers).1 g i := by
  have hp := offered.isVector h
  obtain ⟨p, general, asks⟩ := (sound_offered h).covered _ i ((askedAt_iff h hp).mp offered)
  have requested : Requested (pick offers).1 p i := (Batch.requested_selected_iff _ p i).mpr asks
  obtain ⟨g, hg, rfl, asked⟩ := requested.askedAt (pick_isVector h)
  exact ⟨g, (hg.generalizes_iff hp).mpr general, asked⟩

theorem distinct_pick : (pick offers).1.Pairwise fun a b => a.premise.same b.premise = false := by
  apply (sound_offered h).distinct_selected.imp_of_mem
  intro a b ha hb differ
  rw [← Bool.not_eq_true, (pick_isVector h a ha).same_iff (pick_isVector h b hb)]
  exact differ

/-- A picker picks what is offered at most general premises, each premise once and
the same from every order of the offers, and is empty when all has been taken. -/
theorem pick_exact : Picks offers (pick offers) ∧ ∀ offers', offers'.Perm offers →
    ∀ premise i, AskedAt (pick offers').1 premise i ↔ AskedAt (pick offers).1 premise i := by
  constructor
  · constructor
    · exact distinct_pick h
    · exact fun c hc => ((Batch.mem_selected_iff _ c).mp hc).2
    · exact askedAt_pick_iff h
    · intro g premise i general asked strict
      exact ((askedAt_pick_iff h premise i).mp asked).2 g strict
        ((askedAt_pick_iff h g i).mp general).1
    · exact fun premise i => exists_askedAt_pick h
    · rfl
  · intro offers' perm premise i
    -- The order of the offers does not matter to what is asked for.
    have same : ∀ g, AskedAt offers' g i ↔ AskedAt offers g i := by
      intro g
      apply exists_congr
      intro c
      rw [perm.mem_iff]
    rw [askedAt_pick_iff h, askedAt_pick_iff fun c hc => h c (perm.mem_iff.mp hc), same]
    exact and_congr_right fun _ => forall_congr' fun g => by rw [same g]

end Pick

/-- The more general premise takes a column match away from the other one, which
was offered before, and is offered twice itself. -/
theorem pick_exact_narrowed :
    Picks [⟨[0, 1, 1], 2, [0, 1]⟩, ⟨[0, 1, 0], 1, [1]⟩, ⟨[0, 1, 0], 1, [2]⟩]
      ([⟨[0, 1, 1], 2, [0]⟩, ⟨[0, 1, 0], 1, [1, 2]⟩], empty) ∧
    ∀ offers' : List Candidate, offers'.Perm
        [⟨[0, 1, 1], 2, [0, 1]⟩, ⟨[0, 1, 0], 1, [1]⟩, ⟨[0, 1, 0], 1, [2]⟩] →
      ∀ premise i, AskedAt (pick offers').1 premise i ↔
        AskedAt [⟨[0, 1, 1], 2, [0]⟩, ⟨[0, 1, 0], 1, [1, 2]⟩] premise i := by
  have vectors : ∀ c ∈ ([⟨[0, 1, 1], 2, [0, 1]⟩, ⟨[0, 1, 0], 1, [1]⟩, ⟨[0, 1, 0], 1, [2]⟩] :
      List Candidate), c.premise.IsVector 3 := by
    decide
  exact pick_exact vectors

end Picker

end MatchingDependencies
