import MatchingDependencies.Score

/-!
# The order of scores

The height of a score is its place in the total order, counted from zero. All
comparisons of scores are comparisons of heights, so what is said about the
order of scores is linear arithmetic. Similarities have heights from zero to
that of one, and a score that is not zero is determined by its height.
-/

set_option autoImplicit false

namespace MatchingDependencies.Score

def height (s : Score) : Int := (s.rank.toNat : Int) - 9223372036854775808

def unitHeight : Int := 4607182418800017408

def topHeight : Int := 9223372036854775807

def IsThreshold (s : Score) : Prop := 0 < s.height ∧ s.height ≤ unitHeight

def IsPositive (s : Score) : Prop := 0 < s.height ∧ s.height < topHeight

def IsNonneg (s : Score) : Prop := 0 ≤ s.height ∧ s.height < topHeight

def IsNonzero (s : Score) : Prop := s.height ≠ 0 ∧ s.height < topHeight

theorem magnitude_toNat (s : Score) : s.magnitude.toNat = s.bits.toNat % 9223372036854775808 := by
  rw [magnitude, UInt64.toNat_and]
  exact Nat.and_two_pow_sub_one_eq_mod s.bits.toNat 63

theorem height_eq (s : Score) :
    s.height = if 9218868437227405312 < s.bits.toNat % 9223372036854775808 then topHeight
      else if 9223372036854775808 ≤ s.bits.toNat then
        -(s.bits.toNat % 9223372036854775808 : Nat)
      else (s.bits.toNat % 9223372036854775808 : Nat) := by
  have hm := magnitude_toNat s
  have hb := s.bits.toNat_lt
  have hi : (infinite < s.magnitude) ↔
      9218868437227405312 < s.bits.toNat % 9223372036854775808 := by
    rw [UInt64.lt_iff_toNat_lt, hm]; rfl
  have hn : s.isNegative = true ↔ 9223372036854775808 ≤ s.bits.toNat := by
    rw [isNegative, decide_eq_true_iff, UInt64.le_iff_toNat_le]; rfl
  simp only [height, rank, hi, hn]
  split
  · rfl
  · split
    · rw [UInt64.toNat_sub_of_le _ _ (by rw [UInt64.le_iff_toNat_le, hm]; simp; omega), hm]
      simp only [UInt64.reduceToNat]
      omega
    · rw [UInt64.toNat_add, hm]
      simp only [UInt64.reduceToNat]
      omega

theorem isNumber_iff (s : Score) : s.isNumber = true ↔ s.height < topHeight := by
  have h := s.rank.toNat_lt
  have e : s.rank = unordered ↔ s.rank.toNat = 18446744073709551615 := by
    rw [← UInt64.toNat_inj]; rfl
  simp only [isNumber, bne_iff_ne, ne_eq, e, height, topHeight]
  omega

@[grind =] theorem le_iff (a b : Score) : a ≤ b ↔ a.height ≤ b.height ∧ b.height < topHeight := by
  change a.atMost b = true ↔ _
  simp only [atMost, Bool.and_eq_true, decide_eq_true_iff, isNumber_iff, UInt64.le_iff_toNat_le,
    height]
  omega

@[grind =] theorem lt_iff (a b : Score) : a < b ↔ a.height < b.height ∧ b.height < topHeight := by
  change a.below b = true ↔ _
  simp only [below, Bool.and_eq_true, decide_eq_true_iff, isNumber_iff, UInt64.lt_iff_toNat_lt,
    height]
  omega

theorem rank_le_iff (a b : Score) : a.rank ≤ b.rank ↔ a.height ≤ b.height := by
  rw [UInt64.le_iff_toNat_le, height, height]
  omega

theorem rank_lt_iff (a b : Score) : a.rank < b.rank ↔ a.height < b.height := by
  rw [UInt64.lt_iff_toNat_lt, height, height]
  omega

theorem rank_eq_iff (a b : Score) : a.rank = b.rank ↔ a.height = b.height := by
  rw [← UInt64.toNat_inj, height, height]
  omega

@[grind =] theorem same_iff (a b : Score) :
    a.same b = true ↔ a.height = b.height ∧ b.height < topHeight := by
  simp only [same, Bool.and_eq_true, beq_iff_eq, rank_eq_iff, isNumber_iff]

@[grind =] theorem isZero_iff (s : Score) : s.isZero = true ↔ s.height = 0 := by
  have hm := magnitude_toNat s
  have hz : s.isZero = true ↔ s.bits.toNat % 9223372036854775808 = 0 := by
    rw [isZero, beq_iff_eq, ← UInt64.toNat_inj, hm]; rfl
  rw [hz, height_eq]
  unfold topHeight
  split
  · omega
  · split <;> omega

@[simp, grind =] theorem height_zero : (0 : Score).height = 0 := by decide

@[simp, grind =] theorem height_one : (1 : Score).height = unitHeight := by decide

@[grind =] theorem inUnit_iff (s : Score) :
    s.inUnit = true ↔ 0 ≤ s.height ∧ s.height ≤ unitHeight := by
  simp only [inUnit, Bool.and_eq_true, decide_eq_true_iff, le_iff, height_zero, height_one,
    unitHeight, topHeight]
  omega

/-- What is not zero is determined by its height. -/
theorem eq_of_height_eq {a b : Score} (h : a.height = b.height) (hb : b.height ≠ 0)
    (ht : b.height < topHeight) : a = b := by
  have ha' := height_eq a
  have hb' := height_eq b
  have la := a.bits.toNat_lt
  have lb := b.bits.toNat_lt
  unfold topHeight at *
  have e : a.bits.toNat = b.bits.toNat := by
    split at ha' <;> split at hb' <;> (try split at ha') <;> (try split at hb') <;> omega
  cases a; cases b
  simpa using UInt64.toNat_inj.mp e

theorem unitHeight_lt_top : unitHeight < topHeight := by decide

theorem unitHeight_pos : 0 < unitHeight := by decide

theorem isNonzero_iff (s : Score) : s.IsNonzero ↔ s.isZero = false ∧ s.isNumber = true := by
  rw [IsNonzero, ← Bool.not_eq_true, isZero_iff, isNumber_iff]

theorem IsNonzero.ne_zero {s : Score} (h : s.IsNonzero) : s.isZero = false :=
  ((isNonzero_iff s).mp h).1

theorem IsPositive.isNonzero {s : Score} (h : s.IsPositive) : s.IsNonzero :=
  ⟨Int.ne_of_gt h.1, h.2⟩

theorem IsPositive.ne_zero {s : Score} (h : s.IsPositive) : s.isZero = false :=
  h.isNonzero.ne_zero

theorem isNonneg_iff (s : Score) : s.IsNonneg ↔ 0 ≤ s := by
  rw [IsNonneg, le_iff, height_zero]

instance (s : Score) : Decidable s.IsNonneg := decidable_of_iff _ (isNonneg_iff s).symm

theorem isNonneg_of_inUnit {s : Score} (h : s.inUnit = true) : s.IsNonneg :=
  have range := (inUnit_iff s).mp h
  ⟨range.1, Int.lt_of_le_of_lt range.2 unitHeight_lt_top⟩

theorem isNonneg_zero : (0 : Score).IsNonneg := isNonneg_of_inUnit (by decide)

theorem IsThreshold.inUnit {s : Score} (h : s.IsThreshold) : s.inUnit = true := by
  rw [inUnit_iff]
  exact ⟨Int.le_of_lt h.1, h.2⟩

theorem isThreshold_of_inUnit {s : Score} (unit : s.inUnit = true) (nonzero : s.isZero = false) :
    s.IsThreshold := by
  rw [inUnit_iff] at unit
  rw [← Bool.not_eq_true, isZero_iff] at nonzero
  exact ⟨by omega, unit.2⟩

theorem isThreshold_iff (s : Score) : s.IsThreshold ↔ 0 < s ∧ s ≤ 1 := by
  simp only [IsThreshold, lt_iff, le_iff, height_zero, height_one, unitHeight, topHeight]
  omega

theorem IsThreshold.isPositive {s : Score} (h : s.IsThreshold) : s.IsPositive :=
  ⟨h.1, Int.lt_of_le_of_lt h.2 unitHeight_lt_top⟩

theorem IsNonzero.ext {a b : Score} (hb : b.IsNonzero) (h : a.height = b.height) : a = b :=
  eq_of_height_eq h hb.1 hb.2

theorem IsPositive.ext {a b : Score} (hb : b.IsPositive) (h : a.height = b.height) : a = b :=
  hb.isNonzero.ext h

theorem IsThreshold.ext {a b : Score} (hb : b.IsThreshold) (h : a.height = b.height) : a = b :=
  hb.isPositive.ext h

theorem IsPositive.isNonneg {s : Score} (h : s.IsPositive) : s.IsNonneg :=
  ⟨Int.le_of_lt h.1, h.2⟩

theorem isNonneg_of_canonical {s : Score} (h : s = 0 ∨ s.IsPositive) : s.IsNonneg := by
  rcases h with rfl | positive
  · exact isNonneg_zero
  · exact positive.isNonneg

def IsPlain (s : Score) : Prop := s.height = 0 → s = 0

theorem IsPositive.isPlain {s : Score} (h : s.IsPositive) : s.IsPlain :=
  fun zero => absurd zero (Int.ne_of_gt h.1)

theorem IsThreshold.isPlain {s : Score} (h : s.IsThreshold) : s.IsPlain := h.isPositive.isPlain

theorem IsPlain.ext {a b : Score} (ha : a.IsPlain) (hb : b.IsPlain) (h : a.height = b.height)
    (number : b.height < topHeight) : a = b := by
  by_cases zero : b.height = 0
  · rw [ha (h.trans zero), hb zero]
  · exact eq_of_height_eq h zero number

theorem height_smaller {a b : Score} (ha : a.height < topHeight) :
    (a.smaller b).height = min a.height b.height := by
  have hn : a.isNumber = true := (isNumber_iff a).mpr ha
  simp only [smaller, hn, Bool.not_true, Bool.or_false, decide_eq_true_iff, lt_iff]
  split <;> omega

theorem height_larger {a b : Score} (ha : a.height < topHeight) (hb : b.height < topHeight) :
    (a.larger b).height = max a.height b.height := by
  have hn : a.isNumber = true := (isNumber_iff a).mpr ha
  simp only [larger, hn, Bool.not_true, Bool.or_false, decide_eq_true_iff, lt_iff]
  split <;> omega

theorem compare_eq_lt (a b : Score) : compare a b = .lt ↔ a.height < b.height := by
  rw [← rank_lt_iff]
  exact compareOfLessAndEq_eq_lt

theorem compare_eq_eq (a b : Score) : compare a b = .eq ↔ a.height = b.height := by
  rw [← rank_eq_iff]
  exact Std.LawfulEqOrd.compare_eq_iff_eq (α := UInt64)

instance : Std.TransOrd Score := inferInstanceAs (Std.TransCmp (compareOn rank))

-- Comparisons are read off heights, never off the bits behind them.
attribute [irreducible] height

end MatchingDependencies.Score
