import MatchingDependencies.Lattice.Unsupported
import MatchingDependencies.Proofs.Trie.Insertion

/-!
# The marked premises

A set of unsupported premises is known by the paths that were marked. It
contains exactly the specializations of these.
-/

set_option autoImplicit false

namespace MatchingDependencies.UnsupportedSet

open MatchingDependencies.Path (Allowed)

variable {ok : Allowed} {u : UnsupportedSet} {p q : Path}

def Marked (u : UnsupportedSet) (p : Path) : Prop := u.branches.find? p u.root = some true

structure Sound (ok : Allowed) (u : UnsupportedSet) : Prop where
  positive : ok.Positive
  branches : u.branches.Proper ok 0

theorem not_marked_empty (p : Path) : ¬empty.Marked p := by
  cases p with
  | nil => simp [Marked, empty, Branches.find?]
  | cons x p => simp [Marked, empty]

theorem sound_empty (pos : ok.Positive) : empty.Sound ok := ⟨pos, trivial⟩

theorem Sound.marked_iff (hu : u.Sound ok) :
    u.Marked p ↔ p = [] ∧ u.root = true ∨ (p, true) ∈ u.branches.entries := by
  rw [Marked]
  cases p with
  | nil =>
    have other : ([], true) ∉ u.branches.entries :=
      fun he => u.branches.ne_nil_of_mem_entries _ he rfl
    simp [Branches.find?, other]
  | cons x p =>
    rw [hu.branches.find?_eq_some_iff hu.positive.nonzero (by simp)]
    simp

theorem Sound.marked_proper (hu : u.Sound ok) (h : u.Marked p) : p.Proper ok 0 := by
  rcases hu.marked_iff.mp h with ⟨rfl, -⟩ | he
  · trivial
  · exact hu.branches.mem_entries _ he

/-- A premise is contained if a generalization of it was marked. -/
theorem Sound.contains_iff (hu : u.Sound ok) (hp : p.Proper ok 0) :
    u.contains p = true ↔ ∃ m, u.Marked m ∧ m.Generalizes p := by
  have met : ∀ m, m.Proper ok 0 → (Branches.allMet p.meets m = true ↔ m.Generalizes p) :=
    fun m hm => Branches.allMet_iff hu.positive hm hp
  rw [contains, Bool.or_eq_true, Branches.seek_eq_lookThrough, lookThrough_found, List.any_eq_true]
  constructor
  · rintro (root | ⟨b, hb, test⟩)
    · exact ⟨[], hu.marked_iff.mpr (.inl ⟨rfl, root⟩), fun c => by
        simpa using hp.demand_nonneg hu.positive c⟩
    · obtain ⟨m, he, hm⟩ := Branches.mem_covered_iff.mp hb
      obtain rfl : b = true := test
      exact ⟨m, hu.marked_iff.mpr (.inr he), (met m (hu.branches.mem_entries _ he)).mp hm⟩
  · rintro ⟨m, hm, general⟩
    rcases hu.marked_iff.mp hm with ⟨-, root⟩ | he
    · exact .inl root
    · have := (met m (hu.branches.mem_entries _ he)).mpr general
      exact .inr ⟨true, Branches.mem_covered_iff.mpr ⟨m, he, this⟩, rfl⟩

theorem Sound.mark (hu : u.Sound ok) (hp : p.Proper ok 0) : (u.mark p).Sound ok := by
  refine ⟨hu.positive, ?_⟩
  cases p with
  | nil => exact hu.branches
  | cons x p => exact hu.branches.place 0 hp

theorem Sound.marked_mark (hu : u.Sound ok) (hp : p.Proper ok 0) :
    (u.mark p).Marked q ↔ q = p ∨ u.Marked q := by
  cases p with
  | nil =>
    cases q with
    | nil => simp [Marked, UnsupportedSet.mark, Branches.find?]
    | cons y q => simp [Marked, UnsupportedSet.mark, Branches.find?]
  | cons x p =>
    cases q with
    | nil => simp [Marked, UnsupportedSet.mark, Branches.find?]
    | cons y q =>
      have placed : Branches.Placed (fun _ => false) (fun _ => true) (x::p) (y::q) _ _ :=
        hu.branches.placed hu.positive.nonzero 0 hp (by simp) (by simp) u.root
      change (u.branches.place (fun _ => false) (fun _ => true) 0 (x::p)).find? (y::q) u.root =
        some true ↔ _
      by_cases same : y::q = x::p
      · obtain ⟨a, new, -⟩ := placed.1 same
        exact iff_of_true new (.inl same)
      · rcases placed.2 same with kept | ⟨-, old, k, new⟩
        · rw [kept]
          simp [same, Marked]
        · rw [new]
          simp [same, Marked, old]

end MatchingDependencies.UnsupportedSet
