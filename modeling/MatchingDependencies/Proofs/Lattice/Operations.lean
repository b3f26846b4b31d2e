import MatchingDependencies.Proofs.Lattice.Built

/-!
# Operations on the claims

The lattice of claims is used through a few operations, in any order: claims
are added and withdrawn, and bounds of nodes are overwritten with any scores
whatever. After each of them the nodes stand in proper paths under numbers of
their own, every node has a bound for every column match, and no node is above
the greatest level. This level is that of an accepted addition.
-/

set_option autoImplicit false

namespace MatchingDependencies.ClaimLattice

open MatchingDependencies.Path (similarities similarities_positive)

inductive Operation where
  | add (premise : Scores) (bound : Score) (index : Nat)
  | withdraw (premise : Scores)
  | setBound (premise : Scores) (index : Nat) (bound : Score)
  | ask (premise : Scores) (bound : Score) (index : Nat)
  | markChanged (premise : Scores)
  | takeLowestChanged

namespace Operation

def perform (l : ClaimLattice) : Operation → ClaimLattice
  | add premise bound index => (l.addIfMinimal premise.constraints bound index).2
  | withdraw premise => l.withdraw premise.constraints
  | setBound premise index bound => l.setBound premise.constraints index bound
  | ask premise bound index => (l.isImplied premise.constraints bound index).2
  | markChanged premise => l.markChanged premise.constraints
  | takeLowestChanged => l.takeLowestChanged.2

def accepts (l : ClaimLattice) : Operation → List Scores
  | add premise bound index =>
    if (l.addIfMinimal premise.constraints bound index).1 then [premise] else []
  | _ => []

def Fits (width : Nat) : Operation → Prop
  | add premise _ _ => premise.IsPremise width
  | _ => True

instance (width : Nat) : DecidablePred (Fits width)
  | add premise _ _ => inferInstanceAs (Decidable (premise.IsPremise width))
  | withdraw _ => inferInstanceAs (Decidable True)
  | setBound _ _ _ => inferInstanceAs (Decidable True)
  | ask _ _ _ => inferInstanceAs (Decidable True)
  | markChanged _ => inferInstanceAs (Decidable True)
  | takeLowestChanged => inferInstanceAs (Decidable True)

end Operation

def performAll (l : ClaimLattice) (ops : List Operation) : ClaimLattice :=
  ops.foldl Operation.perform l

def accepted : ClaimLattice → List Operation → List Scores
  | _, [] => []
  | l, o::ops => o.accepts l ++ accepted (o.perform l) ops

/-! ## What never changes -/

/-- Nodes stand in proper paths under different numbers, each has a bound for
every column match, and none is above the greatest level. -/
structure Arranged (width : Nat) (l : ClaimLattice) : Prop where
  columns : l.width = width
  branches : l.branches.Proper (similarities width) 0
  sizes : ∀ e ∈ l.entries, e.2.bounds.size = width
  levels : ∀ e ∈ l.entries, l.levelOf e.1 ≤ l.maxLevel
  numbers : (l.entries.map (·.2.number)).Nodup
  fresh : ∀ e ∈ l.entries, e.2.number < l.size

theorem arranged_new (width : Nat) (cost : LevelCost) :
    Arranged width (ClaimLattice.new width cost) := by
  constructor
  · rfl
  · trivial
  · intro e he
    rw [mem_entries_new e he]
    exact Array.size_replicate
  · intro e he
    rw [mem_entries_new e he]
    exact Nat.le_refl 0
  · exact List.nodup_cons.mpr ⟨List.not_mem_nil, List.nodup_nil⟩
  · intro e he
    rw [mem_entries_new e he]
    exact Nat.one_pos

namespace Arranged

variable {width : Nat} {l : ClaimLattice} (h : Arranged width l)

include h

theorem aside (lowestChanged : Option Nat) (visited : Nat) :
    Arranged width { l with lowestChanged, visited } :=
  ⟨h.columns, h.branches, h.sizes, h.levels, h.numbers, h.fresh⟩

theorem modify (p : Path) (f : Node → Node) (number : ∀ n, (f n).number = n.number)
    (size : ∀ n, (f n).bounds.size = n.bounds.size) : Arranged width (l.modify p f) := by
  have nonzero := (similarities_positive width).nonzero
  have kept : ∀ n : Node, n.bounds.size = width →
      (f n).bounds.size = width ∧ (f n).number = n.number :=
    fun n hn => ⟨(size n).trans hn, number n⟩
  have entry := mem_entries_modify nonzero h.branches p f h.sizes kept
  constructor
  · exact (width_modify ..).trans h.columns
  · exact proper_modify h.branches p f
  · exact fun e he => (entry e he).1
  · intro e he
    obtain ⟨x, hx, eq, -⟩ := (entry e he).2
    rw [maxLevel_modify, levelOf, cost_modify, ← eq]
    exact h.levels x hx
  · rw [numbers_modify nonzero h.branches p f h.sizes kept]
    exact h.numbers
  · intro e he
    obtain ⟨x, hx, -, eq⟩ := (entry e he).2
    rw [size_modify, ← eq]
    exact h.fresh x hx

theorem claim {p : Path} (hp : p.Proper (similarities width) 0) (b : Score) (i : Nat)
    (lowest : Option Nat) : Arranged width { l.claim p b i with
      maxLevel := max l.maxLevel (l.levelOf p), lowestChanged := lowest } := by
  have nonzero := (similarities_positive width).nonzero
  obtain ⟨numbers, fresh⟩ := distinct_claim nonzero h.branches hp b i h.numbers h.fresh
  have entry := mem_entries_claim nonzero h.branches hp b i h.sizes
    (fun k => (Node.fits_blank l.width k).size.trans h.columns)
    fun n hn => (Array.size_setIfInBounds ..).trans hn
  constructor
  · exact (width_claim ..).trans h.columns
  · exact proper_claim h.branches hp b i
  · exact fun e he => (entry e he).1
  · intro e he
    change sumOver _ e.1 ≤ max l.maxLevel (l.levelOf p)
    rw [cost_claim]
    exact levelOf_le_max h.levels (entry e he).2
  · exact numbers
  · exact fresh

theorem add {p : Scores} (hp : p.IsPremise width) (b : Score) (i : Nat) :
    Arranged width (l.addIfMinimal p.constraints b i).2 := by
  have proper := hp.inUnit.constraints_allowed hp.length
  obtain ⟨count, refused | made⟩ := l.addIfMinimal_cases p.constraints b i
  · rw [refused]
    exact h.aside ..
  · rw [made]
    exact (h.claim proper b i _).aside ..

theorem perform {o : Operation} (fits : o.Fits width) : Arranged width (o.perform l) := by
  cases o with
  | add p b i => exact h.add fits b i
  | withdraw p =>
    exact h.modify p.constraints (fun n => { n with bounds := n.bounds.map fun _ => 0 })
      (fun _ => rfl) fun _ => Array.size_map ..
  | setBound p i b =>
    exact h.modify p.constraints (Node.withBound i b) (fun _ => rfl)
      fun _ => Array.size_setIfInBounds ..
  | ask p b i => exact h.aside ..
  | markChanged p => exact h.aside ..
  | takeLowestChanged => exact h.aside ..

theorem performAll {ops : List Operation} (fits : ∀ o ∈ ops, o.Fits width) :
    Arranged width (l.performAll ops) := by
  induction ops generalizing l with
  | nil => exact h
  | cons o ops ih =>
    have first := h.perform (fits o List.mem_cons_self)
    exact ih first fun o ho => fits o (List.mem_cons_of_mem _ ho)

end Arranged

end MatchingDependencies.ClaimLattice
