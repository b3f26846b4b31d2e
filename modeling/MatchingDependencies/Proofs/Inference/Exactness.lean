import MatchingDependencies.Proofs.Inference.Asserting
import MatchingDependencies.Proofs.Lattice.Built
import MatchingDependencies.Proofs.Discovery.Outcome

/-!
# What one vector corrects

Applying a vector to a lattice fails no assertion, counts every claim that the
vector contradicts once, and corrects these claims and no other one that it
reaches. Claims of other premises are only raised.
-/

set_option autoImplicit false

namespace MatchingDependencies

open MatchingDependencies.Path (Allowed)
open MatchingDependencies.Discovery (namesakes namesakes_loaded namesakeMatches namesakeData
  build_namesakes)

namespace Inference

variable {ok : Allowed} {q : Setting} {l : Lattice} {v : Scores}

/-- What applying a vector to a lattice comes to. The claims that it contradicts
are listed once each and counted, and the lattice is corrected for them in turn.
Afterwards the vector violates no premise. -/
structure Settled (q : Setting) (v : Scores) (cs : List (Path × Nat)) (l : Lattice) (count : Nat)
    (l' : Lattice) : Prop where
  mem_iff : ∀ c, c ∈ cs ↔ Contradicts v l c
  differ : cs.Nodup
  counted : count = cs.length
  result : l' = cs.foldl (correctClaim q v) l
  corrected : Corrected q v cs l l'
  /-- A claim that the vector reaches and satisfies stays. -/
  satisfied : ∀ p i, v.Reaches p → (l.bound p i).height ≤ v.demand i → l'.bound p i = l.bound p i
  violated : l'.violated v = []

theorem settled_refuteAll (hd : q.data.Sound) (natural : ∀ c t, q.data.Natural c t → ok c t)
    (len : v.length = q.data.width) (numbered : v.Numbered) (hl : l.Formed ok q.data.width) :
    Settled q v (contradicted l v) l (refuteAll q l v).2 (refuteAll q l v).1 := by
  have listed := mem_contradicted_iff len numbered hl
  have differ := nodup_contradicted len numbered hl
  obtain ⟨refutes, corrected⟩ := corrected_foldl hd natural len numbered hl differ
    fun c hc => (listed c).mp hc
  have formed := (refutes.reduced hd natural len numbered hl).formed
  have heeds := (refuteAll_refutes hd natural len numbered hl).2
  rw [refuteAll_eq hd natural len numbered hl] at heeds ⊢
  refine ⟨listed, differ, rfl, rfl, corrected, fun p i reaches low => ?_,
    (formed.violated_eq_nil_iff len numbered).mpr heeds⟩
  exact corrected.kept reaches fun hc => Int.not_lt.mpr low ((listed (p, i)).mp hc).2

/-- Applying any vector to any lattice is possible and exact. With
the disjointness rule the claims must not be about column matches that their
premises constrain. -/
theorem settled_apply {tables : Tables} (loaded : tables.Loaded)
    {columnMatches : List (Nat × Nat × Measure)} {nullEqualsNull : Bool}
    (data : Dataset.build tables columnMatches nullEqualsNull = .ok q.data)
    (hl : l.Built q.data.width) (apart : l.Separated q) (len : v.length = q.data.width)
    (numbered : v.Numbered) (i : Inference) :
    applyTo? q i l v = some (i.apply q l v) ∧
      Settled q v (contradicted l v) l (i.apply q l v).1 (i.apply q l v).2.2 := by
  have hd := Dataset.sound_of_build loaded data
  have natural : ∀ c t, q.data.Natural c t → Path.numbers q.data.width c t :=
    fun c t ht => ⟨q.data.natural_within c t ht, hd.natural_positive c t ht⟩
  have formed := hl.formed
  refine ⟨?_, settled_refuteAll hd natural len numbered formed⟩
  rw [applyTo?, refuteAll?_eq_of_separated hd natural len numbered formed apart]
  rfl

theorem settled_apply_namesakes :
    Tables.Loaded ⟨namesakes, none⟩ ∧
      Dataset.build ⟨namesakes, none⟩ namesakeMatches true = .ok namesakeData ∧
      (Lattice.new 2).Built namesakeData.width ∧
      (Lattice.new 2).Separated ⟨namesakeData, 0, true⟩ ∧
      Scores.Numbered [0, 0] ∧
      Settled ⟨namesakeData, 0, true⟩ [0, 0] [([], 0), ([], 1)] (Lattice.new 2) 2
        (start.apply ⟨namesakeData, 0, true⟩ (Lattice.new 2) [0, 0]).2.2 := by
  have apart : (Lattice.new 2).Separated ⟨namesakeData, 0, true⟩ :=
    Lattice.separated_new ⟨namesakeData, 0, true⟩
  have numbered : Scores.Numbered [0, 0] := by decide
  exact ⟨namesakes_loaded, build_namesakes, .new, apart, numbered,
    (settled_apply namesakes_loaded build_namesakes .new apart rfl numbered start).2⟩

end Inference

end MatchingDependencies
