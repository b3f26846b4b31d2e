import MatchingDependencies.Lattice.Claims
import MatchingDependencies.Proofs.Trie.Insertion

/-!
# The lattice as a map of bounds

A lattice of claims is known by its bounds: which one it claims for a premise
and a column match. What an operation does to a sound lattice is said in terms
of these bounds, of the numbers of its nodes, and of the levels it notes, and
nothing but the entries of the trie is looked at for it.
-/

set_option autoImplicit false

namespace MatchingDependencies

open MatchingDependencies.Path (Allowed)

namespace Node

structure Fits (width : Nat) (n : Node) : Prop where
  size : n.bounds.size = width
  unit : ∀ b ∈ n.bounds, b.inUnit = true

variable {width : Nat} {n : Node}

theorem Fits.bound_inUnit (h : n.Fits width) (i : Nat) : (n.bound i).inUnit = true := by
  rw [bound, Array.getD_eq_getD_getElem?]
  by_cases lt : i < n.bounds.size
  · rw [Array.getElem?_eq_getElem lt]
    exact h.unit _ (Array.getElem_mem lt)
  · rw [Array.getElem?_eq_none (by omega)]
    decide

theorem bound_of_size_le (n : Node) {i : Nat} (h : n.bounds.size ≤ i) : n.bound i = 0 := by
  rw [bound, Array.getD_eq_getD_getElem?, Array.getElem?_eq_none h]
  rfl

theorem bound_withBound (n : Node) (b : Score) {i : Nat} (h : i < n.bounds.size) (j : Nat) :
    (n.withBound i b).bound j = if j = i then b else n.bound j := by
  simp only [bound, withBound, Array.getD_eq_getD_getElem?, Array.getElem?_setIfInBounds]
  by_cases e : i = j
  · simp [← e, h]
  · simp [e, Ne.symm e]

theorem Fits.withBound (h : n.Fits width) (i : Nat) {b : Score} (hb : b.inUnit = true) :
    (n.withBound i b).Fits width := by
  constructor
  · exact (Array.size_setIfInBounds ..).trans h.size
  · intro x hx
    rcases Array.mem_or_eq_of_mem_setIfInBounds hx with hx | rfl
    · exact h.unit x hx
    · exact hb

def blank (width number : Nat) : Node := ⟨number, Array.replicate width 0⟩

theorem fits_blank (width number : Nat) : (blank width number).Fits width := by
  constructor
  · exact Array.size_replicate
  · intro b hb
    rw [(Array.mem_replicate.mp hb).2]
    decide

@[simp] theorem bound_blank (width number i : Nat) : (blank width number).bound i = 0 := by
  simp only [blank, bound, Array.getD_eq_getD_getElem?, Array.getElem?_replicate]
  split <;> rfl

theorem claimsAny_iff (n : Node) : n.claimsAny = true ↔ ∃ i, (n.bound i).isZero = false := by
  simp only [claimsAny, Array.any_eq_true, Bool.not_eq_true']
  constructor
  · rintro ⟨i, hi, h⟩
    exact ⟨i, by simpa [bound, hi] using h⟩
  · rintro ⟨i, h⟩
    by_cases hi : i < n.bounds.size
    · exact ⟨i, hi, by simpa [bound, hi] using h⟩
    · rw [bound_of_size_le n (by omega)] at h
      exact absurd h (by decide)

end Node

namespace ClaimLattice

variable {ok : Allowed} {l : ClaimLattice}

def entries (l : ClaimLattice) : List (Path × Node) := ([], l.root) :: l.branches.entries

/-- Paths demand allowed thresholds, nodes have different numbers, and no node
lies above the greatest level. -/
structure Sound (ok : Allowed) (l : ClaimLattice) : Prop where
  positive : ok.Positive
  within : ok.Within l.width
  costs : ∀ c t, 0 < l.cost c t
  branches : l.branches.Proper ok 0
  fits : ∀ e ∈ l.entries, e.2.Fits l.width
  levels : ∀ e ∈ l.entries, l.levelOf e.1 ≤ l.maxLevel
  numbers : (l.entries.map (·.2.number)).Nodup
  fresh : ∀ e ∈ l.entries, e.2.number < l.size

theorem Sound.nonzero (hl : l.Sound ok) : ok.Nonzero := hl.positive.nonzero

/-! ## Finding bounds -/

theorem proper_of_mem_entries (hb : l.branches.Proper ok 0) {e : Path × Node}
    (he : e ∈ l.entries) : e.1.Proper ok 0 := by
  rcases List.mem_cons.mp he with rfl | he
  · trivial
  · exact hb.mem_entries e he

theorem Sound.mem_entries (hl : l.Sound ok) {e : Path × Node} (he : e ∈ l.entries) :
    e.1.Proper ok 0 :=
  proper_of_mem_entries hl.branches he

theorem entries_sorted (hb : l.branches.Proper ok 0) :
    l.entries.Pairwise fun e f => Path.Precedes e.1 f.1 := by
  rw [entries, List.pairwise_cons]
  refine ⟨fun e he => ?_, hb.entries_sorted⟩
  have deeper := l.branches.ne_nil_of_mem_entries e he
  obtain ⟨p, n⟩ := e
  cases p with
  | nil => exact absurd rfl deeper
  | cons x p => exact .nil

theorem find?_eq_some_iff (nonzero : ok.Nonzero) (hb : l.branches.Proper ok 0) {p : Path}
    {n : Node} : l.find? p = some n ↔ (p, n) ∈ l.entries := by
  rw [find?, entries, List.mem_cons]
  cases p with
  | nil =>
    have other : ([], n) ∉ l.branches.entries :=
      fun he => l.branches.ne_nil_of_mem_entries _ he rfl
    simp [Branches.find?, other, eq_comm]
  | cons x p =>
    rw [hb.find?_eq_some_iff nonzero (by simp)]
    simp

theorem Sound.find?_eq_some_iff (hl : l.Sound ok) {p : Path} {n : Node} :
    l.find? p = some n ↔ (p, n) ∈ l.entries :=
  ClaimLattice.find?_eq_some_iff hl.nonzero hl.branches

theorem bound_of_find? {p : Path} {n : Node} (h : l.find? p = some n) (i : Nat) :
    l.bound p i = n.bound i := by
  rw [bound, h]

theorem bound_of_find?_none {p : Path} (h : l.find? p = none) (i : Nat) : l.bound p i = 0 := by
  rw [bound, h]

theorem Sound.bound_of_mem (hl : l.Sound ok) {e : Path × Node} (he : e ∈ l.entries) (i : Nat) :
    l.bound e.1 i = e.2.bound i :=
  bound_of_find? (hl.find?_eq_some_iff.mpr he) i

theorem Sound.bound_inUnit (hl : l.Sound ok) (p : Path) (i : Nat) :
    (l.bound p i).inUnit = true := by
  cases h : l.find? p with
  | none =>
    rw [bound_of_find?_none h]
    decide
  | some n =>
    rw [bound_of_find? h]
    exact (hl.fits _ (hl.find?_eq_some_iff.mp h)).bound_inUnit i

theorem Sound.bound_nonneg (hl : l.Sound ok) (p : Path) (i : Nat) : 0 ≤ (l.bound p i).height :=
  ((Score.inUnit_iff _).mp (hl.bound_inUnit p i)).1

theorem Sound.bound_le (hl : l.Sound ok) (p : Path) (i : Nat) :
    (l.bound p i).height ≤ Score.unitHeight :=
  ((Score.inUnit_iff _).mp (hl.bound_inUnit p i)).2

theorem Sound.exists_of_bound (hl : l.Sound ok) {p : Path} {i : Nat}
    (h : 0 < (l.bound p i).height) :
    ∃ n, (p, n) ∈ l.entries ∧ n.bound i = l.bound p i ∧ i < l.width := by
  cases found : l.find? p with
  | none =>
    rw [bound_of_find?_none found, Score.height_zero] at h
    exact absurd h (Int.lt_irrefl 0)
  | some n =>
    have he := hl.find?_eq_some_iff.mp found
    refine ⟨n, he, (bound_of_find? found i).symm, ?_⟩
    by_cases lt : i < l.width
    · exact lt
    · rw [bound_of_find? found, n.bound_of_size_le (by rw [(hl.fits _ he).size]; omega),
        Score.height_zero] at h
      exact absurd h (Int.lt_irrefl 0)

theorem Sound.proper_of_bound (hl : l.Sound ok) {p : Path} {i : Nat}
    (h : 0 < (l.bound p i).height) : p.Proper ok 0 := by
  obtain ⟨n, he, -⟩ := hl.exists_of_bound h
  exact hl.mem_entries he

theorem eq_of_number_eq (differ : (l.entries.map (·.2.number)).Nodup) {e f : Path × Node}
    (he : e ∈ l.entries) (hf : f ∈ l.entries) (h : e.2.number = f.2.number) : e = f := by
  rw [List.nodup_iff_pairwise_ne, List.pairwise_map] at differ
  exact List.Pairwise.forall_of_forall_of_flip
    (R := fun a b : Path × Node => a.2.number = b.2.number → a = b) (fun _ _ _ => rfl)
    (differ.imp fun ne eq => absurd eq ne) (differ.imp fun ne eq => absurd eq.symm ne) he hf h

theorem Sound.eq_of_number_eq (hl : l.Sound ok) {e f : Path × Node} (he : e ∈ l.entries)
    (hf : f ∈ l.entries) (h : e.2.number = f.2.number) : e = f :=
  ClaimLattice.eq_of_number_eq hl.numbers he hf h

def Implied (l : ClaimLattice) (p : Path) (height : Int) (i : Nat) : Prop :=
  ∃ g, g.Generalizes p ∧ height ≤ (l.bound g i).height

theorem Implied.trans {p q : Path} {a b : Int} {i : Nat} (h : l.Implied p b i) (le : a ≤ b)
    (general : p.Generalizes q) : l.Implied q a i := by
  obtain ⟨g, hg, hb⟩ := h
  exact ⟨g, hg.trans general, Int.le_trans le hb⟩

end ClaimLattice

end MatchingDependencies
