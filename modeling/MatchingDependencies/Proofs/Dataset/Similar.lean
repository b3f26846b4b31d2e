import MatchingDependencies.Proofs.Dataset.Groups
import MatchingDependencies.Proofs.Discovery.Outcome

/-!
# The records that are similar to a value

For every left value the index knows the right records that reach a threshold.
They are the records that one finds by going through the profiles of a left
record that holds the value, for every positive threshold, whether it is one of
the similarities that occur or lies between two of them or above them all.
-/

set_option autoImplicit false

namespace MatchingDependencies.Dataset

open MatchingDependencies.Discovery (namesakes namesakes_loaded namesakeMatches namesakeData
  build_namesakes)

def Held (d : Dataset) (m v l : Nat) : Prop :=
  l < d.leftCount ∧ d.tables.left.valueAt l (d.columnMatch m).left = v

def similarTo (d : Dataset) (m : Nat) (t : Score) (l : Nat) : List Nat :=
  (List.range d.rightCount).filter fun r => t ≤ (d.pairProfile (l, r)).score m

/-- The index agrees with the profiles of every left record that holds a value. -/
structure Agrees (d : Dataset) (m v : Nat) (t : Score) : Prop where
  occurs : ∃ l, d.Held m v l
  none_iff : ∀ l, d.Held m v l → ((d.comparison m).recordsFor? v t = none ↔
    ¬∃ r, r < d.rightCount ∧ t ≤ (d.pairProfile (l, r)).score m)
  records : ∀ l, d.Held m v l → ∀ found, (d.comparison m).recordsFor? v t = some found →
    found.Pairwise (· < ·) ∧
      ∀ r, r ∈ found ↔ r < d.rightCount ∧ t ≤ (d.pairProfile (l, r)).score m
  nested : ∀ u, t ≤ u → ∀ fewer, (d.comparison m).recordsFor? v u = some fewer →
    ∃ more, (d.comparison m).recordsFor? v t = some more ∧ fewer ⊆ more

variable {d : Dataset}

theorem mem_similarTo_iff {m l r : Nat} {t : Score} :
    r ∈ d.similarTo m t l ↔ r < d.rightCount ∧ t ≤ (d.pairProfile (l, r)).score m := by
  rw [similarTo, List.mem_filter, List.mem_range, decide_eq_true_iff]

theorem similarTo_eq_nil_iff {m l : Nat} {t : Score} : d.similarTo m t l = [] ↔
    ¬∃ r, r < d.rightCount ∧ t ≤ (d.pairProfile (l, r)).score m := by
  simp only [List.eq_nil_iff_forall_not_mem, mem_similarTo_iff, not_exists]

namespace Sound

variable (hd : d.Sound) {m : Nat} (hm : m < d.width)

include hd hm

omit hm in
theorem le_score_iff (t : Score) (left right : Record) : t ≤ (d.profile left right).score m ↔
    t.height ≤ ((d.profile left right).score m).height := by
  rw [Score.le_iff]
  exact and_iff_left ((hd.profile_numbered left right).demand_lt m)

theorem meeting_eq (t : Score) (l : Nat) :
    d.meeting (d.leftRecord l) (m, t) = d.similarTo m t l := by
  apply List.filter_congr
  intro r _
  rw [decide_eq_decide, pairProfile, hd.le_score_iff, d.score_profile _ _ hm]

theorem recordsFor?_eq {v l : Nat} {t : Score} (ht : 0 < t) (held : d.Held m v l) :
    (d.comparison m).recordsFor? v t =
      if d.similarTo m t l = [] then none else some (d.similarTo m t l) := by
  obtain ⟨hl, rfl⟩ := held
  rw [Score.lt_iff, Score.height_zero] at ht
  have inside := hd.left.value_lt l hl _ (hd.columns m hm).1
  have spec : Answers (d.meeting (d.leftRecord l) (m, t) = []) (d.meeting (d.leftRecord l) (m, t))
      ((d.comparison m).recordsFor? (d.tables.left.valueAt l (d.columnMatch m).left) t) :=
    hd.recordsFor?_spec (x := (m, t)) hm ht.1 inside
  rw [hd.meeting_eq hm] at spec
  cases found : (d.comparison m).recordsFor? (d.tables.left.valueAt l (d.columnMatch m).left) t with
  | none =>
    rw [found] at spec
    have empty : d.similarTo m t l = [] := spec
    rw [if_pos empty]
  | some records =>
    rw [found] at spec
    obtain rfl : records = _ := spec
    rw [if_neg (hd.recordsFor?_ne_nil (x := (m, t)) hm ht.1 inside found)]

theorem agrees {v : Nat} (hv : v < (d.tables.left.column (d.columnMatch m).left).size) {t : Score}
    (ht : 0 < t) : d.Agrees m v t := by
  have occurs : ∃ l, d.Held m v l := hd.left.occurs _ (hd.columns m hm).1 v hv
  refine ⟨occurs, fun l held => ?_, fun l held found h => ?_, fun u le fewer h => ?_⟩
  · rw [hd.recordsFor?_eq hm ht held, ← similarTo_eq_nil_iff]
    split <;> simp_all
  · rw [hd.recordsFor?_eq hm ht held] at h
    split at h
    · cases h
    · obtain rfl := Option.some.inj h
      exact ⟨List.pairwise_lt_range.filter _, fun r => mem_similarTo_iff⟩
  · obtain ⟨l, held⟩ := occurs
    have hu : 0 < u := by grind
    have part : d.similarTo m u l ⊆ d.similarTo m t l := fun r hr => by
      obtain ⟨inside, reached⟩ := mem_similarTo_iff.mp hr
      exact mem_similarTo_iff.mpr ⟨inside, by grind⟩
    rw [hd.recordsFor?_eq hm hu held] at h
    split at h
    · cases h
    · next nonempty =>
      obtain rfl := Option.some.inj h
      have filled : d.similarTo m t l ≠ [] := fun empty =>
        nonempty (List.subset_nil.mp (empty ▸ part))
      exact ⟨_, (hd.recordsFor?_eq hm ht held).trans (if_neg filled), part⟩

end Sound

/-- For every left value and every positive threshold, the index of loaded tables
agrees with the profiles of the record pairs. -/
theorem records_agree {tables : Tables} (loaded : tables.Loaded)
    {columnMatches : List (Nat × Nat × Measure)} {nullEqualsNull : Bool}
    (h : build tables columnMatches nullEqualsNull = .ok d) {m v : Nat} (hm : m < d.width)
    (hv : v < (d.tables.left.column (d.columnMatch m).left).size) {t : Score} (ht : 0 < t) :
    d.Agrees m v t :=
  (sound_of_build loaded h).agrees hm hv ht

theorem records_agree_namesakes :
    Tables.Loaded ⟨namesakes, none⟩ ∧
      build ⟨namesakes, none⟩ namesakeMatches true = .ok namesakeData ∧
      1 < namesakeData.width ∧ 0 < (namesakes.column 1).size ∧
      (0 : Score) < ⟨0x3FE0000000000000⟩ ∧
      namesakeData.Agrees 1 0 ⟨0x3FE0000000000000⟩ ∧
      (namesakeData.comparison 1).recordsFor? 0 ⟨0x3FE0000000000000⟩ = some [0] :=
  ⟨namesakes_loaded, build_namesakes, by decide, by decide, by decide,
    records_agree namesakes_loaded build_namesakes (by decide) (by decide) (by decide),
    by with_unfolding_all rfl⟩

end MatchingDependencies.Dataset
