import Mathlib.Logic.ExistsUnique
import MatchingDependencies.Proofs.Lattice.Operations
import MatchingDependencies.Proofs.Path.Numeric
import MatchingDependencies.Proofs.Trie.Links

/-!
# Numbers of nodes

A node is known from outside by its number, and whoever keeps a number relies on
it later. Whatever was done to a lattice of claims, its numbered nodes with the
links between them form a trie: every number below the size is reached by one walk
from the root, and it is found under the premise that this walk demands, before
and after any further operations.
-/

set_option autoImplicit false

namespace MatchingDependencies.ClaimLattice

open MatchingDependencies.Path (nonzeros nonzeros_nonzero nonzeros_within)

def links (l : ClaimLattice) : List Link := l.branches.links Node.number l.root.number

def Leads (l : ClaimLattice) (taken : List Link) (n : Nat) : Prop := Link.Walk l.links 0 taken n

def numberOf? (l : ClaimLattice) (premise : Scores) : Option Nat :=
  (l.find? premise.constraints).map Node.number

def Operation.IsNumeric (width : Nat) : Operation → Prop
  | add premise _ _ => premise.IsNumeric width
  | _ => True

instance (width : Nat) : DecidablePred (Operation.IsNumeric width)
  | .add premise _ _ => inferInstanceAs (Decidable (premise.IsNumeric width))
  | .withdraw _ => inferInstanceAs (Decidable True)
  | .setBound _ _ _ => inferInstanceAs (Decidable True)
  | .ask _ _ _ => inferInstanceAs (Decidable True)
  | .markChanged _ => inferInstanceAs (Decidable True)
  | .takeLowestChanged => inferInstanceAs (Decidable True)

/-- The numbers below the size are the nodes of a trie. Walks from the root take
columns in increasing order and thresholds other than zero, and one walk leads to
each number. The number of a premise is where the walk leads that demands it. So
every number is that of one premise, up to premises with the same values, and a
premise that has a node has one still when its last constraints are dropped. -/
structure IsTrie (width : Nat) (l : ClaimLattice) : Prop where
  ascending : ∀ taken n, l.Leads taken n →
    (taken.map Link.column).Pairwise (· < ·) ∧ ∀ e ∈ taken, e.threshold.isZero = false
  within : ∀ taken n, l.Leads taken n → n < l.size
  reached : ∀ n < l.size, ∃! taken, l.Leads taken n
  found : ∀ v n, l.numberOf? v = some n ↔
    ∃ taken, l.Leads taken n ∧ taken.map Link.constraint = v.constraints
  named : ∀ n < l.size, ∃ v : Scores, v.IsNumeric width ∧ l.numberOf? v = some n
  exact : ∀ (v w : Scores) n, v.length = width → w.length = width → l.numberOf? v = some n →
    (l.numberOf? w = some n ↔ v.same w = true)
  closed : ∀ v column, (l.numberOf? v).isSome = true → (l.numberOf? (v.upTo column)).isSome = true

def KeepsNumbers (width : Nat) (l : ClaimLattice) : Prop :=
  ∀ later : List Operation, (∀ o ∈ later, o.IsNumeric width) → ∀ v n,
    l.numberOf? v = some n → (l.performAll later).numberOf? v = some n

/-- Nodes stand in proper paths, and their numbers are those below the size. -/
structure Numbered (width : Nat) (l : ClaimLattice) : Prop where
  branches : l.branches.Proper (nonzeros width) 0
  root : l.root.number = 0
  numbers : (l.entries.map (·.2.number)).Perm (List.range l.size)

variable {width : Nat} {l l' : ClaimLattice}

theorem Keeps.numberOf? (h : Keeps l l') {v : Scores} {n : Nat}
    (found : l.numberOf? v = some n) : l'.numberOf? v = some n := by
  rw [ClaimLattice.numberOf?, Option.map_eq_some_iff] at found
  obtain ⟨node, hn, rfl⟩ := found
  obtain ⟨node', hn', same⟩ := h _ _ hn
  rw [ClaimLattice.numberOf?, hn', Option.map_some, same]

theorem numbered_new (width : Nat) (cost : LevelCost) :
    Numbered width (ClaimLattice.new width cost) :=
  ⟨trivial, rfl, .refl _⟩

namespace Numbered

variable (h : Numbered width l)

include h

/-! ## What operations keep -/

theorem aside (maxLevel : Nat) (lowestChanged : Option Nat) (visited : Nat) :
    Numbered width { l with maxLevel, lowestChanged, visited } :=
  ⟨h.branches, h.root, h.numbers⟩

theorem modify (p : Path) {f : Node → Node} (number : ∀ n, (f n).number = n.number) :
    Numbered width (l.modify p f) ∧ Keeps l (l.modify p f) := by
  have nonzero := nonzeros_nonzero width
  have every : ∀ e ∈ l.entries, True := fun _ _ => trivial
  have kept : ∀ n : Node, True → True ∧ (f n).number = n.number := fun n _ => ⟨trivial, number n⟩
  refine ⟨⟨proper_modify h.branches p f, ?_, ?_⟩, keeps_modify nonzero h.branches p every kept⟩
  · cases p with
    | nil => exact (number l.root).trans h.root
    | cons x p => exact h.root
  · rw [numbers_modify nonzero h.branches p f every kept, size_modify]
    exact h.numbers

theorem claim {p : Path} (hp : p.Proper (nonzeros width) 0) (b : Score) (i : Nat) :
    Numbered width (l.claim p b i) ∧ Keeps l (l.claim p b i) := by
  have nonzero := nonzeros_nonzero width
  obtain ⟨made, size, numbers⟩ := numbers_claim nonzero h.branches hp b i
  refine ⟨⟨proper_claim h.branches hp b i, ?_, ?_⟩, keeps_claim nonzero h.branches hp b i⟩
  · cases p with
    | nil => exact h.root
    | cons x p => exact h.root
  · rw [size, List.range_eq_range', ← List.range'_append_1, ← List.range_eq_range', Nat.zero_add]
    exact numbers.trans (h.numbers.append_right _)

theorem add {v : Scores} (hv : v.IsNumeric width) (b : Score) (i : Nat) :
    Numbered width (l.addIfMinimal v.constraints b i).2 ∧
      Keeps l (l.addIfMinimal v.constraints b i).2 := by
  obtain ⟨count, refused | made⟩ := l.addIfMinimal_cases v.constraints b i
  · rw [refused]
    exact ⟨h.aside .., .refl l⟩
  · obtain ⟨numbered, keeps⟩ := h.claim hv.constraints_proper b i
    rw [made]
    exact ⟨numbered.aside .., keeps⟩

theorem perform {o : Operation} (numeric : o.IsNumeric width) :
    Numbered width (o.perform l) ∧ Keeps l (o.perform l) := by
  cases o with
  | add v b i => exact h.add numeric b i
  | withdraw v =>
    exact h.modify v.constraints (f := fun n => { n with bounds := n.bounds.map fun _ => 0 })
      fun _ => rfl
  | setBound v i b => exact h.modify v.constraints (f := Node.withBound i b) fun _ => rfl
  | ask v b i => exact ⟨h.aside .., .refl l⟩
  | markChanged v => exact ⟨h.aside .., .refl l⟩
  | takeLowestChanged => exact ⟨h.aside .., .refl l⟩

theorem performAll {ops : List Operation} (numeric : ∀ o ∈ ops, o.IsNumeric width) :
    Numbered width (l.performAll ops) ∧ Keeps l (l.performAll ops) := by
  induction ops generalizing l with
  | nil => exact ⟨h, .refl l⟩
  | cons o ops ih =>
    obtain ⟨first, keeps⟩ := h.perform (numeric o List.mem_cons_self)
    obtain ⟨all, keepsAll⟩ := ih first fun o ho => numeric o (List.mem_cons_of_mem _ ho)
    exact ⟨all, keeps.trans keepsAll⟩

/-! ## Walks and entries -/

theorem distinct : (l.entries.map (·.2.number)).Nodup :=
  h.numbers.nodup_iff.mpr List.nodup_range

theorem exists_entry_iff {n : Nat} : (∃ e ∈ l.entries, e.2.number = n) ↔ n < l.size := by
  rw [← List.mem_map (f := fun e : Path × Node => e.2.number), h.numbers.mem_iff, List.mem_range]

theorem find?_iff {p : Path} {n : Node} : l.find? p = some n ↔ (p, n) ∈ l.entries :=
  find?_eq_some_iff (nonzeros_nonzero width) h.branches

theorem leads_iff {taken : List Link} {n : Nat} :
    l.Leads taken n ↔ Link.Walk l.links l.root.number taken n := by
  rw [h.root]
  exact Iff.rfl

theorem exists_leads {e : Path × Node} (he : e ∈ l.entries) :
    ∃ taken, l.Leads taken e.2.number ∧ taken.map Link.constraint = e.1 := by
  obtain ⟨taken, walk, path⟩ := l.branches.exists_walk Node.number l.root e he
  exact ⟨taken, h.leads_iff.mpr walk, path⟩

section From

variable {p : Path} {a : Node} (he : (p, a) ∈ l.entries)

include he

theorem entry_of_link {x : Link} (mem : x ∈ l.links) (source : x.source = a.number) :
    ∃ b, (p ++ [x.constraint], b) ∈ l.entries ∧ b.number = x.target := by
  obtain ⟨q, u, v, hq, same, hv, target⟩ :=
    l.branches.entries_of_mem_links Node.number l.root x mem
  obtain ⟨rfl, rfl⟩ := Prod.mk.inj (eq_of_number_eq h.distinct hq he (same.trans source))
  exact ⟨v, List.mem_cons_of_mem _ hv, target⟩

theorem entry_of_walk {taken : List Link} {n : Nat}
    (walk : Link.Walk l.links a.number taken n) :
    ∃ b, (p ++ taken.map Link.constraint, b) ∈ l.entries ∧ b.number = n := by
  induction taken generalizing p a with
  | nil =>
    rw [List.map_nil, List.append_nil]
    exact ⟨a, he, Link.walk_nil_iff.mp walk⟩
  | cons x taken ih =>
    obtain ⟨mem, source, rest⟩ := Link.walk_cons_iff.mp walk
    obtain ⟨b, hb, target⟩ := h.entry_of_link he mem source
    obtain ⟨c, hc, eq⟩ := ih hb (target ▸ rest)
    rw [List.append_assoc] at hc
    exact ⟨c, hc, eq⟩

theorem walk_unique {taken taken' : List Link} {n n' : Nat}
    (walk : Link.Walk l.links a.number taken n) (walk' : Link.Walk l.links a.number taken' n')
    (same : taken.map Link.constraint = taken'.map Link.constraint) : taken = taken' := by
  induction taken generalizing p a taken' with
  | nil => exact (List.map_eq_nil_iff.mp same.symm).symm
  | cons x taken ih =>
    cases taken' with
    | nil => exact absurd same (List.cons_ne_nil _ _)
    | cons y taken' =>
      obtain ⟨head, tail⟩ := List.cons.inj same
      obtain ⟨mem, source, rest⟩ := Link.walk_cons_iff.mp walk
      obtain ⟨mem', source', rest'⟩ := Link.walk_cons_iff.mp walk'
      obtain ⟨b, hb, target⟩ := h.entry_of_link he mem source
      obtain ⟨b', hb', target'⟩ := h.entry_of_link he mem' source'
      -- Both links lead to the node under the same path.
      have child : b = b' := by
        rw [← head] at hb'
        exact Option.some.inj ((h.find?_iff.mpr hb).symm.trans (h.find?_iff.mpr hb'))
      obtain rfl : x = y := by
        obtain ⟨column, threshold⟩ := Prod.mk.inj head
        exact Link.ext (source.trans source'.symm) column threshold
          (target.symm.trans ((congrArg Node.number child).trans target'))
      rw [ih hb (target ▸ rest) (target ▸ rest') tail]

end From

theorem entry_of_leads {taken : List Link} {n : Nat} (leads : l.Leads taken n) :
    ∃ b, (taken.map Link.constraint, b) ∈ l.entries ∧ b.number = n :=
  h.entry_of_walk (p := []) List.mem_cons_self (h.leads_iff.mp leads)

theorem numberOf?_eq_some_iff {v : Scores} {n : Nat} :
    l.numberOf? v = some n ↔ ∃ b, (v.constraints, b) ∈ l.entries ∧ b.number = n := by
  rw [ClaimLattice.numberOf?, Option.map_eq_some_iff]
  exact exists_congr fun b => and_congr_left fun _ => h.find?_iff

/-! ## The trie -/

theorem reached {n : Nat} (hn : n < l.size) : ∃! taken, l.Leads taken n := by
  obtain ⟨e, he, rfl⟩ := h.exists_entry_iff.mpr hn
  obtain ⟨taken, leads, path⟩ := h.exists_leads he
  refine ⟨taken, leads, fun other leads' => ?_⟩
  obtain ⟨b, hb, eq⟩ := h.entry_of_leads leads'
  have same := eq_of_number_eq h.distinct hb he eq
  exact h.walk_unique (p := []) List.mem_cons_self (h.leads_iff.mp leads')
    (h.leads_iff.mp leads) ((congrArg Prod.fst same).trans path.symm)

theorem found {v : Scores} {n : Nat} : l.numberOf? v = some n ↔
    ∃ taken, l.Leads taken n ∧ taken.map Link.constraint = v.constraints := by
  rw [h.numberOf?_eq_some_iff]
  constructor
  · rintro ⟨b, hb, rfl⟩
    exact h.exists_leads hb
  · rintro ⟨taken, leads, path⟩
    rw [← path]
    exact h.entry_of_leads leads

theorem isNumeric_of_numberOf? {v : Scores} {n : Nat} (length : v.length = width)
    (found : l.numberOf? v = some n) : v.IsNumeric width := by
  obtain ⟨b, hb, -⟩ := h.numberOf?_eq_some_iff.mp found
  exact Scores.isNumeric_of_proper length (proper_of_mem_entries h.branches hb)

theorem named {n : Nat} (hn : n < l.size) :
    ∃ v : Scores, v.IsNumeric width ∧ l.numberOf? v = some n := by
  obtain ⟨⟨p, b⟩, hb, eq⟩ := h.exists_entry_iff.mpr hn
  have path : (p.premise width).constraints = p :=
    (proper_of_mem_entries h.branches hb).constraints_premise_of_nonzero (nonzeros_nonzero width)
      (nonzeros_within width)
  have found : l.numberOf? (p.premise width) = some n := by
    rw [h.numberOf?_eq_some_iff, path]
    exact ⟨b, hb, eq⟩
  exact ⟨_, h.isNumeric_of_numberOf? (p.length_premise width) found, found⟩

theorem numberOf?_eq_iff {v w : Scores} {n : Nat} (hv : v.length = width) (hw : w.length = width)
    (found : l.numberOf? v = some n) : l.numberOf? w = some n ↔ v.same w = true := by
  have numeric := h.isNumeric_of_numberOf? hv found
  rw [Scores.same_iff_constraints_eq (hv.trans hw.symm) numeric.numbers]
  constructor
  · intro other
    obtain ⟨a, ha, eq⟩ := h.numberOf?_eq_some_iff.mp found
    obtain ⟨b, hb, eq'⟩ := h.numberOf?_eq_some_iff.mp other
    exact congrArg Prod.fst (eq_of_number_eq h.distinct ha hb (eq.trans eq'.symm))
  · intro same
    rw [ClaimLattice.numberOf?, ← same]
    exact found

end Numbered

theorem numberOf?_upTo_isSome {v : Scores} (column : Nat)
    (stored : (l.numberOf? v).isSome = true) : (l.numberOf? (v.upTo column)).isSome = true := by
  rw [numberOf?, Option.isSome_map] at stored ⊢
  obtain ⟨rest, path⟩ := v.constraints_upTo column
  rw [← path] at stored
  exact Branches.find?_isSome_of_append _ rest l.root l.branches stored

theorem Numbered.isTrie (h : Numbered width l) : IsTrie width l := by
  constructor
  · intro taken n leads
    obtain ⟨b, hb, -⟩ := h.entry_of_leads leads
    have proper := proper_of_mem_entries h.branches hb
    have columns := proper.ascending
    rw [List.map_map] at columns
    exact ⟨columns, fun e he => (proper.allowed _ (List.mem_map_of_mem he)).2.ne_zero⟩
  · intro taken n leads
    obtain ⟨b, hb, eq⟩ := h.entry_of_leads leads
    exact h.exists_entry_iff.mp ⟨_, hb, eq⟩
  · exact fun n => h.reached
  · exact fun v n => h.found
  · exact fun n => h.named
  · exact fun v w n => h.numberOf?_eq_iff
  · exact fun v column => numberOf?_upTo_isSome column

theorem Numbered.keepsNumbers (h : Numbered width l) : KeepsNumbers width l := by
  intro later numeric v n found
  obtain ⟨-, keeps⟩ := h.performAll numeric
  exact keeps.numberOf? found

/-- Whatever is done to a lattice of claims, with any numbers for thresholds and any
costs of constraints, its nodes form a trie, and their numbers can be relied on from
then on. -/
theorem performAll_trie {cost : LevelCost} {ops : List Operation}
    (numeric : ∀ o ∈ ops, o.IsNumeric width) :
    IsTrie width ((ClaimLattice.new width cost).performAll ops) ∧
      KeepsNumbers width ((ClaimLattice.new width cost).performAll ops) := by
  obtain ⟨numbered, -⟩ := (numbered_new width cost).performAll numeric
  exact ⟨numbered.isTrie, numbered.keepsNumbers⟩

/-- The second addition branches off the path of the first one. Later the claims of
the node where it does are withdrawn, and a third addition begins at the root. -/
theorem performAll_trie_branching :
    let half : Score := ⟨0x3FE0000000000000⟩
    let minusOne : Score := ⟨0xBFF0000000000000⟩
    let minusZero : Score := ⟨0x8000000000000000⟩
    let ops : List Operation := [.setBound [0, 0] 0 0, .setBound [0, 0] 1 0,
      .add [half, 1] 1 1, .add [half, minusOne] half 0]
    let later : List Operation := [.withdraw [half, 0], .add [minusOne, 1] 1 0]
    let l := (ClaimLattice.new 2 unitCost).performAll ops
    (∀ o ∈ ops, o.IsNumeric 2) ∧ (∀ o ∈ later, o.IsNumeric 2) ∧ l.size = 4 ∧
      l.numberOf? [half, minusZero] = some 1 ∧ IsTrie 2 l ∧
        (l.performAll later).numberOf? [half, minusZero] = some 1 := by
  intro half minusOne minusZero ops later l
  have numeric : ∀ o ∈ ops, o.IsNumeric 2 := by decide
  have numericLater : ∀ o ∈ later, o.IsNumeric 2 := by decide
  have number : l.numberOf? [half, minusZero] = some 1 := by decide
  have both : IsTrie 2 l ∧ KeepsNumbers 2 l := performAll_trie numeric
  obtain ⟨trie, keeps⟩ := both
  exact ⟨numeric, numericLater, by decide, number, trie, keeps later numericLater _ _ number⟩

end MatchingDependencies.ClaimLattice
