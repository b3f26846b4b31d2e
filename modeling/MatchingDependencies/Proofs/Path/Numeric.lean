import MatchingDependencies.Proofs.Path.Premise

/-!
# Vectors of numbers

Which premises have a node does not depend on the range of their thresholds, only
on which thresholds are the same. So thresholds may be any numbers here, negative
ones too. A score that is no number is not even the same as itself.
-/

set_option autoImplicit false

namespace MatchingDependencies

open MatchingDependencies.Path (Allowed)

namespace Path

def nonzeros (width : Nat) : Allowed := fun c t => c < width ∧ t.IsNonzero

theorem nonzeros_nonzero (width : Nat) : (nonzeros width).Nonzero := fun _ _ h => h.2

theorem nonzeros_within (width : Nat) : (nonzeros width).Within width := fun _ _ h => h.1

theorem Proper.ascending {ok : Allowed} {first : Nat} {p : Path} (h : p.Proper ok first) :
    (p.map (·.1)).Pairwise (· < ·) := by
  induction p generalizing first with
  | nil => exact .nil
  | cons x p ih =>
    rw [List.map_cons, List.pairwise_cons, List.forall_mem_map]
    exact ⟨h.2.2.first_le, ih h.2.2⟩

end Path

namespace Scores

structure IsNumeric (width : Nat) (v : Scores) : Prop where
  length : v.length = width
  numbers : ∀ s ∈ v, s.isNumber = true

instance (width : Nat) (v : Scores) : Decidable (v.IsNumeric width) :=
  decidable_of_iff (v.length = width ∧ ∀ s ∈ v, s.isNumber = true)
    ⟨fun h => ⟨h.1, h.2⟩, fun h => ⟨h.1, h.2⟩⟩

variable {ok : Allowed} {v : Scores} {width : Nat}

theorem IsNumeric.constraints_proper (h : v.IsNumeric width) :
    v.constraints.Proper (Path.nonzeros width) 0 := by
  apply Fits.constraints_proper
  intro c nonzero
  have inside := lt_length_of_ne_zero nonzero
  exact ⟨h.length ▸ inside, (Score.isNonzero_iff _).mpr ⟨nonzero, h.numbers _ (score_mem inside)⟩⟩

theorem Fits.numbers (nonzero : ok.Nonzero) (h : v.Fits ok) : ∀ s ∈ v, s.isNumber = true := by
  refine h.forall_mem (fun s zero => ?_) fun c t ht => (Score.isNumber_iff t).mpr (nonzero c t ht).2
  rw [Score.isNumber_iff, zero]
  decide

theorem isNumeric_of_proper (length : v.length = width)
    (proper : v.constraints.Proper (Path.nonzeros width) 0) : v.IsNumeric width :=
  ⟨length, (fits_of_constraints_proper proper).numbers (Path.nonzeros_nonzero width)⟩

/-! ## Dropping the last constraints -/

def upTo (v : Scores) (column : Nat) : Scores := v.take column ++ zeros (v.length - column)

theorem constraintsFrom_upTo (v : Scores) (column first : Nat) :
    (v.upTo column).constraintsFrom first <+: v.constraintsFrom first := by
  induction v generalizing column first with
  | nil => simp [upTo, zeros, constraintsFrom]
  | cons s v ih =>
    cases column with
    | zero =>
      have nothing : (upTo (s::v) 0).constraintsFrom first = [] := constraintsFrom_zeros _ first
      rw [nothing]
      exact List.nil_prefix
    | succ column =>
      have rest := ih column (first+1)
      have head : upTo (s::v) (column+1) = s :: upTo v column := by simp [upTo]
      rw [head, constraintsFrom, constraintsFrom]
      split
      · exact rest
      · exact (List.prefix_cons_inj _).mpr rest

theorem constraints_upTo (v : Scores) (column : Nat) :
    (v.upTo column).constraints <+: v.constraints :=
  v.constraintsFrom_upTo column 0

end Scores

end MatchingDependencies
