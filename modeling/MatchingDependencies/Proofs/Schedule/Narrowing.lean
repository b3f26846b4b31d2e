import MatchingDependencies.Proofs.Schedule.Slots

/-!
# Who loses column matches

Whatever a picker was told before, the walk for a premise comes to the accepted
candidates for all its specializations, and the premise is one of its own
specializations. An offer narrows a picker by what no accepted candidate for its
premise asks for, so there only strict specializations lose anything.
-/

set_option autoImplicit false

namespace MatchingDependencies

instance (g s : Scores) : Decidable (g.StrictlyGeneralizes s) := inferInstanceAs (Decidable (_ ∧ _))

namespace Batch

def without (batch : Batch) (indices : Indices) (loses : Scores → Prop) [DecidablePred loses] :
    Batch :=
  batch.map fun a => if loses a.premise then a.without indices else a

structure Tidy (width : Nat) (batch : Batch) : Prop where
  vectors : ∀ a ∈ batch, a.premise.IsVector width
  distinct : batch.Distinct

variable {width : Nat} {batch : Batch} {premise : Scores} {indices : Indices} {a c : Candidate}

/-! ## What a batch may come to -/

theorem Tidy.proper (h : Tidy width batch) (ha : a ∈ batch) :
    a.path.Proper Scores.positives 0 :=
  (h.vectors a ha).constraints_proper

theorem Tidy.narrow (h : Tidy width batch) (premise : Scores) (indices : Indices) :
    Tidy width (batch.narrow premise indices) := by
  constructor
  · intro b hb
    obtain ⟨a, ha, -, same, -⟩ := mem_narrow hb
    rw [same]
    exact h.vectors a ha
  · exact h.distinct.narrow premise indices

theorem Tidy.add (h : Tidy width batch) (hc : c.premise.IsVector width) :
    Tidy width (batch.add c) := by
  constructor
  · intro b hb
    rcases mem_add hb with rfl | hb | ⟨a, ha, rfl⟩
    · exact hc
    · exact h.vectors b hb
    · exact h.vectors a ha
  · exact h.distinct.add c

theorem Tidy.perform (h : Tidy width batch) {o : Picker.Operation}
    (ho : o.premise.IsVector width) : Tidy width (batch.perform o) := by
  cases o with
  | add c => exact h.add ho
  | narrow premise indices => exact h.narrow premise indices
  | offer c =>
    rw [Batch.perform, Batch.offer]
    split
    · exact h
    · exact (h.narrow _ _).add ho

theorem Tidy.performAll (h : Tidy width batch) {operations : List Picker.Operation}
    (vectors : ∀ o ∈ operations, o.premise.IsVector width) :
    Tidy width (operations.foldl Batch.perform batch) := by
  induction operations generalizing batch with
  | nil => exact h
  | cons o operations ih =>
    exact ih (h.perform (vectors o List.mem_cons_self)) fun o ho =>
      vectors o (List.mem_cons_of_mem _ ho)

theorem Tidy.once (h : Tidy width batch) :
    batch.Pairwise fun a b => a.premise.same b.premise = false := by
  apply h.distinct.imp_of_mem
  intro a b ha hb differ
  rw [← Bool.not_eq_true, (h.vectors a ha).same_iff (h.vectors b hb)]
  exact differ

/-! ## What narrowing takes away -/

theorem without_eq_self_iff (a : Candidate) (indices : Indices) :
    a.without indices = a ↔ ∀ i ∈ a.indices, i ∉ indices := by
  have kept : a.indices.diff indices = a.indices ↔ ∀ i ∈ a.indices, i ∉ indices := by
    simp [Indices.diff]
  rw [← kept]
  constructor
  · exact fun same => congrArg Candidate.indices same
  · intro same
    rw [Candidate.without, same]

theorem Tidy.narrow_eq (h : Tidy width batch) (hp : premise.IsVector width) (indices : Indices) :
    batch.narrow premise indices = batch.without indices (premise.generalizes · = true) := by
  apply List.map_congr_left
  intro a ha
  have covers : premise.constraints.covers a.path = premise.generalizes a.premise := by
    rw [Bool.eq_iff_iff, Path.covers_iff Scores.positives_positive hp.constraints_proper
      (h.proper ha), hp.generalizes_iff (h.vectors a ha)]
    exact Iff.rfl
  rw [covers]

/-- A candidate for the premise itself makes the difference. -/
theorem Tidy.narrow_eq_strict_iff (h : Tidy width batch) (hp : premise.IsVector width)
    (indices : Indices) :
    batch.narrow premise indices = batch.without indices premise.StrictlyGeneralizes ↔
      ∀ a ∈ batch, premise.same a.premise = true → ∀ i ∈ a.indices, i ∉ indices := by
  rw [h.narrow_eq hp, without, without, List.map_inj_left]
  apply forall₂_congr
  intro a ha
  -- The two sides differ at candidates for the premise itself only.
  by_cases same : premise.same a.premise = true
  · have general : premise.generalizes a.premise = true := by
      rw [hp.generalizes_iff (h.vectors a ha), (hp.same_iff (h.vectors a ha)).mp same]
      exact .refl _
    simp [Scores.StrictlyGeneralizes, same, general, without_eq_self_iff]
  · simp [Scores.StrictlyGeneralizes, same]

theorem Tidy.narrow_excluded (h : Tidy width batch) (hc : c.premise.IsVector width) :
    batch.narrow c.premise (batch.exclude c.premise c.indices) =
      batch.without (batch.exclude c.premise c.indices) c.premise.StrictlyGeneralizes := by
  rw [h.narrow_eq_strict_iff hc]
  intro a ha same i hi excluded
  have covers : a.path.covers c.premise.constraints = true := by
    rw [Path.covers_iff Scores.positives_positive (h.proper ha) hc.constraints_proper,
      (hc.same_iff (h.vectors a ha)).mp same]
    exact .refl _
  exact ((mem_exclude_iff batch c.premise c.indices i).mp excluded).2 a ha covers hi

end Batch

namespace Picker

variable {width : Nat}

/-- After whatever a picker was told, narrowing it takes the column matches away
from the candidates for the premise and its strict specializations, and from no
others. It is all the same whether the premise counts if and only if nothing is
taken away from a candidate for it, as in an offer. -/
theorem narrow_exact {lhs : Scores} (hl : lhs.IsVector width) (operations : List Operation)
    (vectors : ∀ o ∈ operations, o.premise.IsVector width) (indices : Indices) :
    let picker := operations.foldl perform empty
    (picker.batch.Pairwise fun a b => a.premise.same b.premise = false) ∧
    (picker.narrow lhs indices).batch = picker.batch.without indices (lhs.generalizes · = true) ∧
    ((picker.narrow lhs indices).batch = picker.batch.without indices lhs.StrictlyGeneralizes ↔
      ∀ a ∈ picker.batch, lhs.same a.premise = true → ∀ i ∈ a.indices, i ∉ indices) ∧
    ∀ c : Candidate, c.premise.IsVector width →
      (picker.narrow c.premise (picker.exclude c.premise c.indices)).batch =
        picker.batch.without (picker.exclude c.premise c.indices) c.premise.StrictlyGeneralizes := by
  have pos := Scores.positives_positive
  obtain ⟨formed, batch⟩ := (formed_empty _).performAll pos fun o ho =>
    (vectors o ho).constraints_proper
  have start : Batch.Tidy width [] := ⟨by simp, .nil⟩
  have tidy : (operations.foldl perform empty).batch.Tidy width :=
    batch ▸ start.performAll vectors
  intro picker
  rw [formed.batch_narrow pos]
  refine ⟨tidy.once, tidy.narrow_eq hl indices, tidy.narrow_eq_strict_iff hl indices,
    fun c hc => ?_⟩
  rw [formed.batch_narrow pos, formed.exclude_eq pos hc.constraints_proper]
  exact tidy.narrow_excluded hc

/-- The premise is narrowed twice, with a candidate for it and without one, and a
second candidate for a specialization is merged with the first. -/
theorem narrow_exact_merged :
    let operations : List Operation := [.add ⟨[1, 1], 2, [0, 1]⟩, .narrow [1, 0] [1],
      .offer ⟨[1, 0], 1, [1, 2]⟩, .add ⟨[1, 1], 2, [1, 2]⟩]
    let picker := operations.foldl perform empty
    Scores.IsVector 2 [1, 0] ∧ (∀ o ∈ operations, o.premise.IsVector 2) ∧
    (picker.batch.Pairwise fun a b => a.premise.same b.premise = false) ∧
    (picker.narrow [1, 0] [0, 2]).batch =
      picker.batch.without [0, 2] (Scores.generalizes [1, 0] · = true) ∧
    ((picker.narrow [1, 0] [0, 2]).batch =
        picker.batch.without [0, 2] (Scores.StrictlyGeneralizes [1, 0]) ↔
      ∀ a ∈ picker.batch, Scores.same [1, 0] a.premise = true → ∀ i ∈ a.indices, i ∉ [0, 2]) ∧
    ∀ c : Candidate, c.premise.IsVector 2 →
      (picker.narrow c.premise (picker.exclude c.premise c.indices)).batch =
        picker.batch.without (picker.exclude c.premise c.indices)
          c.premise.StrictlyGeneralizes := by
  intro operations picker
  have hl : Scores.IsVector 2 [1, 0] := by decide
  have vectors : ∀ o ∈ operations, o.premise.IsVector 2 := by decide
  exact ⟨hl, vectors, narrow_exact hl operations vectors [0, 2]⟩

/-- A candidate for the premise itself loses a column match, though the premise
does not strictly generalize itself. -/
theorem narrow_own :
    let picker := [Operation.add ⟨[1], 0, [0, 1]⟩].foldl perform empty
    ¬Scores.StrictlyGeneralizes [1] [1] ∧ picker.selected.map (·.indices) = [[0, 1]] ∧
      (picker.narrow [1] [0]).selected.map (·.indices) = [[1]] := by
  decide

end Picker

end MatchingDependencies
