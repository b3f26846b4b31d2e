import MatchingDependencies.Proofs.Lattice.Formed
import MatchingDependencies.Proofs.Setting

/-!
# Operations that assert what they rely on

Claims are only added if they say something, an unsupported premise is given no
claim except by the operation that asks first, and no edge is made that exists
already. The operations with a question mark are those of a lattice, except that
they answer nothing where such an assertion fails. On a lattice whose claims
are permitted no assertion fails.
-/

set_option autoImplicit false

namespace MatchingDependencies

open MatchingDependencies.Path (Allowed)

namespace Branches

variable {α : Type} {ok : Allowed} {first : Nat}

def isSimple : Branches α → Bool
  | none => true
  | edge c t _ below after => (after.child? c t).isNone && below.isSimple && after.isSimple

theorem Proper.child?_eq_none {b : Branches α} (pos : ok.Positive) (hb : b.Proper ok first)
    {x : Nat × Score} (follows : b.Follows x) : b.child? x.1 x.2 = Option.none := by
  induction b with
  | none => rfl
  | edge c t a below after _ ihAfter =>
    rw [child?, if_neg fun same => follows.ne ((sameEdge_iff pos.nonzero hb.2.1).mp same).symm]
    exact ihAfter hb.2.2.2.2 (hb.2.2.2.1.trans follows)

theorem Proper.isSimple {b : Branches α} (pos : ok.Positive) (hb : b.Proper ok first) :
    b.isSimple = true := by
  induction b generalizing first with
  | none => rfl
  | edge c t a below after ihBelow ihAfter =>
    obtain ⟨-, -, deeper, follows, later⟩ := hb
    rw [Branches.isSimple, later.child?_eq_none pos follows, ihBelow deeper, ihAfter later]
    rfl

end Branches

theorem foldlM_eq_some {σ α : Type} {step? : σ → α → Option σ} {step : σ → α → σ}
    (keeps : σ → Prop) {as : List α}
    (each : ∀ s, keeps s → ∀ a ∈ as, step? s a = some (step s a) ∧ keeps (step s a)) {s : σ}
    (h : keeps s) : as.foldlM step? s = some (as.foldl step s) := by
  induction as generalizing s with
  | nil => rfl
  | cons a as ih =>
    obtain ⟨first, kept⟩ := each s h a List.mem_cons_self
    have rest := ih (fun s hs b hb => each s hs b (List.mem_cons_of_mem _ hb)) kept
    rw [List.foldlM_cons, first, List.foldl_cons]
    exact rest

namespace Lattice

def claimMinimal? (l : Lattice) (path : Path) (bound : Score) (index : Nat) :
    Option (Bool × Lattice) :=
  let result := l.addIfMinimal path bound index
  if 0 < bound && result.2.claims.branches.isSimple then some result else none

def addIfMinimal? (l : Lattice) (path : Path) (bound : Score) (index : Nat) :
    Option (Bool × Lattice) :=
  if l.isUnsupported path then none else l.claimMinimal? path bound index

def addIfMinimalSupported? (l : Lattice) (path : Path) (bound : Score) (index : Nat) :
    Option (Bool × Lattice) :=
  if l.isUnsupported path then some (false, l) else l.claimMinimal? path bound index

def markUnsupported? (l : Lattice) (path : Path) : Option Lattice :=
  let result := l.markUnsupported path
  if result.unsupported.branches.isSimple then some result else none

/-- Premises demand natural thresholds only, and every claim is permitted. -/
structure Lawful (q : Setting) (l : Lattice) : Prop where
  formed : l.Formed q.data.Natural q.data.width
  permitted : ∀ p i, 0 < (l.bound p i).height → q.Permits p i (l.bound p i).height

def Separated (q : Setting) (l : Lattice) : Prop :=
  q.disjoint = true → ∀ p i, 0 < (l.bound p i).height → p.demand i = 0

theorem Lawful.separated {q : Setting} {l : Lattice} (hl : l.Lawful q) : l.Separated q :=
  fun rule p i claimed => (hl.permitted p i claimed).2 rule

theorem separated_new (q : Setting) : (Lattice.new q.data.width).Separated q := by
  intro _ p i claimed
  rw [bound_new] at claimed
  split at claimed
  · next here => rw [here.1, Path.demand_nil]
  · rw [Score.height_zero] at claimed
    exact absurd claimed (Int.lt_irrefl 0)

namespace Formed

variable {ok : Allowed} {width : Nat} {l : Lattice} {p : Path} {b : Score} {i : Nat}
  (hl : l.Formed ok width) (hp : p.Proper ok 0) (hb : b.IsThreshold) (hi : i < width)

include hl hp

theorem markUnsupported?_eq : l.markUnsupported? p = some (l.markUnsupported p) := by
  have marks := (hl.markUnsupported hp).marks
  rw [markUnsupported?, if_pos (marks.branches.isSimple marks.positive)]

include hb hi

theorem claimMinimal?_eq : l.claimMinimal? p b i = some (l.addIfMinimal p b i) := by
  have claims := (hl.addIfMinimal hp hb hi).1.claims
  have positive : 0 < b := by
    have top := Score.unitHeight_lt_top
    have most := hb.2
    rw [Score.lt_iff, Score.height_zero]
    exact ⟨hb.1, by omega⟩
  have simple := claims.branches.isSimple claims.positive
  rw [claimMinimal?, if_pos (by rw [simple]; simpa using positive)]

theorem addIfMinimal?_eq (supported : l.isUnsupported p = false) :
    l.addIfMinimal? p b i = some (l.addIfMinimal p b i) := by
  rw [addIfMinimal?, supported]
  exact hl.claimMinimal?_eq hp hb hi

theorem addIfMinimalSupported?_eq :
    l.addIfMinimalSupported? p b i = some (l.addIfMinimalSupported p b i) := by
  rw [addIfMinimalSupported?, Lattice.addIfMinimalSupported]
  split
  · rfl
  · exact hl.claimMinimal?_eq hp hb hi

end Formed

end Lattice

end MatchingDependencies
