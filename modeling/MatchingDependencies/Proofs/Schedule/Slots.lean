import MatchingDependencies.Proofs.Schedule.Batch
import MatchingDependencies.Proofs.Trie.Insertion

/-!
# The slots of a picker

The slot at the end of a path holds the place of the accepted candidate for the
path, and other slots are empty. So the walk for generalizations drops what the
candidates ask for whose paths the premise meets, the walk for specializations
comes to those that meet the premise, and adding a candidate finds the one for
the same premise. Whatever a picker is told, it accepts what a list would.
-/

set_option autoImplicit false

namespace MatchingDependencies

open MatchingDependencies.Path (Allowed Proper)

theorem Candidate.without_without (indices : Indices) (c : Candidate) :
    (c.without indices).without indices = c.without indices := by
  simp [Candidate.without, Indices.diff]

namespace Branches

def specialized {α : Type} (path : Path) (b : Branches α) : List α :=
  (b.entries.filter fun e => path.covers e.1).map (·.2)

variable {α : Type} {ok : Allowed} {first c d : Nat} {t s : Score} {path : Path}

theorem specialized_nil (b : Branches α) : specialized [] b = b.values := by
  rw [specialized, List.filter_eq_self.mpr (by simp [Path.covers]), values]

theorem specialized_edge_of_lt (less : c < d) (a : α) (below after : Branches α) :
    specialized ((d, s)::path) (edge c t a below after) =
      specialized ((d, s)::path) below ++ specialized ((d, s)::path) after := by
  have other : d ≠ c := by omega
  simp [specialized, entries, Path.covers, List.filter_map, Function.comp_def, other, less]

theorem specialized_edge_of_le (enough : s.rank ≤ t.rank) (a : α) (below after : Branches α) :
    specialized ((c, s)::path) (edge c t a below after) =
      (if path.isEmpty then [a] else []) ++ specialized path below ++
        specialized ((c, s)::path) after := by
  cases path with
  | nil => simp [specialized, entries, Path.covers, List.filter_map, Function.comp_def, enough]
  | cons x path =>
    simp [specialized, entries, Path.covers, List.filter_map, Function.comp_def, enough]

theorem specialized_edge_of_not_le (short : ¬s.rank ≤ t.rank) (a : α) (below after : Branches α) :
    specialized ((c, s)::path) (edge c t a below after) = specialized ((c, s)::path) after := by
  simp [specialized, entries, Path.covers, List.filter_map, Function.comp_def, short]

theorem specialized_edge_of_gt (behind : d < c) (a : α) (below after : Branches α) :
    specialized ((d, s)::path) (edge c t a below after) = specialized ((d, s)::path) after := by
  have other : d ≠ c := by omega
  have notLess : ¬c < d := by omega
  simp [specialized, entries, Path.covers, List.filter_map, Function.comp_def, other, notLess]

theorem Proper.specialized_of_lt {b : Branches α} (hb : b.Proper ok first) {x : Nat × Score}
    (follows : b.Follows x) (less : d < x.1) : specialized ((d, s)::path) b = [] := by
  rw [specialized, List.map_eq_nil_iff, List.filter_eq_nil_iff]
  intro e he
  obtain ⟨y, q, eq, before⟩ := hb.mem_entries_follows follows e he
  have behind : d < y.1 := by
    rcases before with before | before <;> omega
  rw [eq, Path.covers, if_neg (Nat.ne_of_lt behind), Bool.and_eq_true, decide_eq_true_iff]
  omega

end Branches

namespace Picker

variable {ok : Allowed} {first : Nat} {p : Picker} {path q : Path} {accepted : Array Candidate}
  {indices : Indices} {premise : Scores} {c : Candidate} {i place : Nat}

def batch (p : Picker) : Batch := p.accepted.toList

def entries (p : Picker) : List (Path × Option Nat) := ([], p.root) :: p.branches.entries

/-- The slot of a path holds the place of the candidate that is for the path. -/
structure Formed (ok : Allowed) (p : Picker) : Prop where
  proper : p.branches.Proper ok 0
  slots : ∀ path place, p.slot path = some place ↔
    (p.accepted[place]?).map Candidate.path = some path

theorem formed_empty (ok : Allowed) : empty.Formed ok := by
  constructor
  · trivial
  · intro path place
    cases path <;> simp [slot, empty, Branches.find?, Branches.child?]

/-! ## The walk to generalizations -/

def asks (accepted : Array Candidate) (slot : Option Nat) (i : Nat) : Bool :=
  slot.any fun place => (accepted.getD place default).indices.contains i

theorem drop_eq (accepted : Array Candidate) (slot : Option Nat) (left : Indices) :
    drop accepted slot left = left.filter fun i => !asks accepted slot i := by
  cases slot with
  | none => exact (List.filter_eq_self.mpr fun _ _ => rfl).symm
  | some place => rfl

theorem excludeBelow_eq (meets : Nat → Score → Bool) (b : Branches (Option Nat)) (left : Indices) :
    excludeBelow accepted meets b left =
      left.filter fun i => !(b.covered meets).any fun slot => asks accepted slot i := by
  induction b generalizing left with
  | none => exact (List.filter_eq_self.mpr fun _ _ => rfl).symm
  | edge c t slot below after ihBelow ihAfter =>
    rw [excludeBelow, Branches.covered]
    split
    · next nothing => simp [List.isEmpty_iff.mp nothing]
    · split
      · rw [ihAfter, ihBelow, drop_eq, List.filter_filter, List.filter_filter]
        apply List.filter_congr
        intro i _
        rw [List.cons_append, List.any_cons, List.any_append, Bool.not_or, Bool.not_or,
          Bool.and_comm, Bool.and_comm (!(Branches.covered meets after).any _)]
      · exact ihAfter left

theorem asks_iff (slot : Option Nat) (i : Nat) : asks accepted slot i = true ↔
    ∃ place a, slot = some place ∧ accepted[place]? = some a ∧ i ∈ a.indices := by
  rw [asks, Option.any_eq_true]
  constructor
  · rintro ⟨place, rfl, asked⟩
    rw [Array.getD_eq_getD_getElem?] at asked
    cases found : accepted[place]? with
    | none =>
      rw [found] at asked
      nomatch asked
    | some a =>
      rw [found, Option.getD_some, List.contains_iff_mem] at asked
      exact ⟨place, a, rfl, found, asked⟩
  · rintro ⟨place, a, rfl, found, hi⟩
    exact ⟨place, rfl, by simpa [Array.getD_eq_getD_getElem?, found] using hi⟩

theorem exclude_eq_filter (p : Picker) (premise : Scores) (indices : Indices) :
    p.exclude premise indices = indices.filter fun i => !p.entries.any fun e =>
      Branches.allMet premise.constraints.meets e.1 && asks p.accepted e.2 i := by
  rw [exclude, excludeBelow_eq, drop_eq, List.filter_filter, Branches.covered_eq]
  simp [entries, Branches.allMet, Bool.and_comm]

/-! ## The walk to specializations -/

/-- The walk takes column matches from the candidates in the slots it comes to. -/
theorem narrowBelow_eq {b : Branches (Option Nat)} (hb : b.Proper ok first) (path : Path)
    (accepted : Array Candidate) : narrowBelow indices path b accepted =
      (Branches.specialized path b).foldl (take indices) accepted := by
  induction b generalizing first path accepted with
  | none => cases path <;> rfl
  | edge c t slot below after ihBelow ihAfter =>
    obtain ⟨le, ht, hBelow, follows, hAfter⟩ := hb
    cases path with
    | nil =>
      rw [narrowBelow, ihAfter hAfter, ihBelow hBelow, Branches.specialized_nil,
        Branches.specialized_nil, Branches.specialized_nil, Branches.values_edge]
      simp
    | cons x path =>
      obtain ⟨d, s⟩ := x
      rw [narrowBelow]
      split
      · next less =>
        rw [ihAfter hAfter, ihBelow hBelow, Branches.specialized_edge_of_lt less,
          List.foldl_append]
      · split
        · next same =>
          subst same
          split
          · next enough =>
            rw [ihAfter hAfter, ihBelow hBelow, Branches.specialized_edge_of_le enough,
              List.foldl_append, List.foldl_append, takeAtEnd]
            split <;> rfl
          · next short =>
            rw [ihAfter hAfter, Branches.specialized_edge_of_not_le short]
        · next notLess other =>
          -- Edges are sorted, so no later one meets the constraint either.
          have behind : d < c := by omega
          rw [Branches.specialized_edge_of_gt behind,
            Branches.Proper.specialized_of_lt hAfter follows behind]
          rfl

theorem accepted_narrow (proper : p.branches.Proper ok 0) (premise : Scores)
    (indices : Indices) : (p.narrow premise indices).accepted =
      ((p.entries.filter fun e => premise.constraints.covers e.1).map (·.2)).foldl (take indices)
        p.accepted := by
  rw [narrow]
  dsimp only
  rw [narrowBelow_eq proper, entries, takeAtEnd]
  cases premise.constraints <;> rfl

theorem getElem?_foldl_take (slots : List (Option Nat)) (accepted : Array Candidate) (i : Nat) :
    (slots.foldl (take indices) accepted)[i]? =
      (accepted[i]?).map fun a => if some i ∈ slots then a.without indices else a := by
  induction slots generalizing accepted with
  | nil => simp
  | cons slot slots ih =>
    rw [List.foldl_cons, ih]
    cases slot with
    | none => simp [take]
    | some place =>
      rw [take, Array.getElem?_modify]
      by_cases here : place = i
      · subst here
        rw [if_pos rfl]
        cases accepted[place]? with
        | none => rfl
        | some a => by_cases later : some place ∈ slots <;> simp [later, Candidate.without_without]
      · simp [here, Ne.symm here]

theorem Formed.narrow (h : p.Formed ok) (premise : Scores) (indices : Indices) :
    (p.narrow premise indices).Formed ok := by
  constructor
  · exact h.proper
  · intro path place
    rw [accepted_narrow h.proper, getElem?_foldl_take, Option.map_map]
    have same : Candidate.path ∘ (fun a => if some place ∈ (p.entries.filter fun e =>
        premise.constraints.covers e.1).map (·.2) then a.without indices else a) =
          Candidate.path := by
      funext a
      rw [Function.comp_apply]
      split <;> rfl
    rw [same]
    exact h.slots path place

theorem Formed.entry_proper (h : p.Formed ok) {e : Path × Option Nat} (he : e ∈ p.entries) :
    e.1.Proper ok 0 := by
  rcases List.mem_cons.mp he with rfl | he
  · trivial
  · exact h.proper.mem_entries _ he

section Formed

variable (pos : ok.Positive) (h : p.Formed ok)

include pos h

theorem Formed.mem_entries_iff : (path, some place) ∈ p.entries ↔
    (p.accepted[place]?).map Candidate.path = some path := by
  rw [← h.slots, slot, Option.join_eq_some_iff]
  cases path with
  | nil =>
    have other : ([], some place) ∉ p.branches.entries :=
      fun he => p.branches.ne_nil_of_mem_entries _ he rfl
    simp [entries, Branches.find?, other, eq_comm]
  | cons x path =>
    rw [h.proper.find?_eq_some_iff pos.nonzero (by simp)]
    simp [entries]

theorem Formed.exclude_eq (hp : Proper ok 0 premise.constraints) (indices : Indices) :
    p.exclude premise indices = p.batch.exclude premise indices := by
  have covers : ∀ e ∈ p.entries, (Branches.allMet premise.constraints.meets e.1 = true ↔
      e.1.covers premise.constraints = true) := by
    intro e he
    have proper := h.entry_proper he
    rw [Branches.allMet_iff pos proper hp, Path.covers_iff pos proper hp]
  rw [exclude_eq_filter, Batch.exclude]
  apply List.filter_congr
  intro i _
  rw [Bool.not_inj_iff, Bool.eq_iff_iff, List.any_eq_true, List.any_eq_true]
  constructor
  · rintro ⟨⟨q, slot⟩, he, test⟩
    rw [Bool.and_eq_true, covers _ he, asks_iff] at test
    obtain ⟨covered, place, a, rfl, found, hi⟩ := test
    have here := (h.mem_entries_iff pos).mp he
    rw [found, Option.map_some, Option.some.injEq] at here
    refine ⟨a, Array.mem_toList_iff.mpr (Array.mem_of_getElem? found), ?_⟩
    simp [here, covered, hi]
  · rintro ⟨a, ha, test⟩
    obtain ⟨place, found⟩ := List.getElem?_of_mem ha
    rw [batch, Array.getElem?_toList] at found
    have he : (a.path, some place) ∈ p.entries := by
      rw [h.mem_entries_iff pos, found]
      rfl
    rw [Bool.and_eq_true, List.contains_iff_mem] at test
    refine ⟨_, he, ?_⟩
    rw [Bool.and_eq_true, covers _ he, asks_iff]
    exact ⟨test.1, place, a, rfl, found, test.2⟩

theorem Formed.batch_narrow (premise : Scores) (indices : Indices) :
    (p.narrow premise indices).batch = p.batch.narrow premise indices := by
  apply List.ext_getElem?
  intro i
  rw [batch, batch, Batch.narrow, List.getElem?_map, Array.getElem?_toList, Array.getElem?_toList,
    accepted_narrow h.proper, getElem?_foldl_take]
  cases found : p.accepted[i]? with
  | none => rfl
  | some a =>
    have come : some i ∈ (p.entries.filter fun e => premise.constraints.covers e.1).map (·.2) ↔
        premise.constraints.covers a.path = true := by
      have here : ∀ q, (q, some i) ∈ p.entries ↔ a.path = q := by
        intro q
        rw [h.mem_entries_iff pos, found, Option.map_some, Option.some.injEq]
      simp [here]
    simp only [Option.map_some, come]

/-! ## What a picker is told -/

theorem Formed.fill (hq : q.Proper ok 0) (place : Nat) :
    (p.fill q place).branches.Proper ok 0 ∧
      ∀ path, (p.fill q place).slot path = if path = q then some place else p.slot path := by
  cases q with
  | nil =>
    constructor
    · exact h.proper
    · intro path
      cases path <;> simp [slot, Picker.fill, Branches.find?]
  | cons x q =>
    constructor
    · exact h.proper.place 0 hq
    · intro path
      cases path with
      | nil => simp [slot, Picker.fill, Branches.find?]
      | cons y path =>
        have placed : Branches.Placed (fun _ => none) (fun _ => some place) (x::q) (y::path) _ _ :=
          h.proper.placed pos.nonzero 0 hq (by simp) (by simp) p.root
        change ((p.branches.place (fun _ => none) (fun _ => some place) 0 (x::q)).find? (y::path)
          p.root).join = if y::path = x::q then some place else (p.branches.find? _ p.root).join
        split
        · next same =>
          obtain ⟨a, new, -⟩ := placed.1 same
          rw [new]
          rfl
        · next differ =>
          rcases placed.2 differ with kept | ⟨-, old, k, new⟩
          · rw [kept]
          · rw [new, old]
            rfl

omit pos in
theorem Formed.path_eq_iff {a : Candidate} (ha : p.accepted[place]? = some a) (q : Path) :
    a.path = q ↔ p.slot q = some place := by
  rw [h.slots, ha, Option.map_some, Option.some.injEq]

omit pos in
theorem Formed.join (same : p.slot c.path = some place) :
    let joined := { p with accepted := p.accepted.modify place (·.joined c.indices) }
    joined.Formed ok ∧ joined.batch = p.batch.add c := by
  intro joined
  constructor
  · refine ⟨h.proper, fun path i => ?_⟩
    rw [Array.getElem?_modify]
    refine (h.slots path i).trans ?_
    split
    · rw [Option.map_map]
      exact Iff.rfl
    · exact Iff.rfl
  · rw [batch, batch, Array.toList_modify]
    have inside : place < p.accepted.size := by
      obtain ⟨a, here, -⟩ := Option.map_eq_some_iff.mp ((h.slots c.path place).mp same)
      exact (Array.getElem?_eq_some_iff.mp here).1
    refine (Batch.add_eq_modify (by simpa using inside) fun i a ha => ?_).symm
    rw [Array.getElem?_toList] at ha
    rw [h.path_eq_iff ha, same, Option.some.injEq, eq_comm]

theorem Formed.push (hc : c.path.Proper ok 0) (absent : p.slot c.path = none) :
    let filled := p.fill c.path p.accepted.size
    let pushed := { filled with accepted := filled.accepted.push c }
    pushed.Formed ok ∧ pushed.batch = p.batch.add c := by
  intro filled pushed
  obtain ⟨proper, slots⟩ := h.fill pos hc p.accepted.size
  have kept : filled.accepted = p.accepted := by
    dsimp only [filled]
    cases c.path <;> rfl
  constructor
  · refine ⟨proper, fun path i => ?_⟩
    change filled.slot path = some i ↔ (((filled.accepted.push c)[i]?).map _ = some path)
    rw [slots, kept, Array.getElem?_push]
    by_cases last : i = p.accepted.size
    · subst last
      have unused : p.slot path ≠ some p.accepted.size := by
        rw [Ne, h.slots, Array.getElem?_eq_none (Nat.le_refl _)]
        exact Option.some_ne_none _ ∘ Eq.symm
      by_cases here : path = c.path <;> simp [here, unused, eq_comm]
    · have other : some p.accepted.size ≠ some i := fun eq => last (Option.some.inj eq).symm
      rw [if_neg last, ← h.slots]
      by_cases here : path = c.path <;> simp [here, absent, other]
  · change (filled.accepted.push c).toList = _
    rw [kept, Array.toList_push]
    refine (Batch.add_eq_append fun a ha same => ?_).symm
    obtain ⟨place, found⟩ := List.getElem?_of_mem ha
    rw [Array.getElem?_toList] at found
    rw [(h.path_eq_iff found _).mp same] at absent
    nomatch absent

/-- Either the slot is taken and the candidate there is joined, or it is filled with
the place behind all accepted candidates. -/
theorem Formed.add (hc : c.path.Proper ok 0) :
    (p.add c).Formed ok ∧ (p.add c).batch = p.batch.add c := by
  rw [Picker.add]
  split
  · next place same => exact h.join same
  · next absent => exact h.push pos hc absent

/-- What a generalization covers is dropped first, and if anything is left, the
candidate takes it away from specializations and is added. -/
theorem Formed.offer (hc : c.path.Proper ok 0) :
    (p.offer c).Formed ok ∧ (p.offer c).batch = p.batch.offer c := by
  rw [Picker.offer, Batch.offer, h.exclude_eq pos hc]
  cases p.batch.exclude c.premise c.indices with
  | nil => exact ⟨h, rfl⟩
  | cons i indices =>
    dsimp only
    rw [← h.batch_narrow pos]
    exact (h.narrow _ _).add pos hc

end Formed

end Picker

inductive Picker.Operation where
  | offer (c : Candidate)
  | add (c : Candidate)
  | narrow (premise : Scores) (indices : Indices)

def Picker.Operation.premise : Operation → Scores
  | .offer c => c.premise
  | .add c => c.premise
  | .narrow premise _ => premise

def Picker.perform (p : Picker) : Operation → Picker
  | .offer c => p.offer c
  | .add c => p.add c
  | .narrow premise indices => p.narrow premise indices

def Batch.perform (batch : Batch) : Picker.Operation → Batch
  | .offer c => batch.offer c
  | .add c => batch.add c
  | .narrow premise indices => batch.narrow premise indices

namespace Picker

variable {ok : Allowed} {p : Picker} {offers : List Candidate} {operations : List Operation}

theorem Formed.perform (pos : ok.Positive) (h : p.Formed ok) {o : Operation}
    (ho : Proper ok 0 o.premise.constraints) :
    (p.perform o).Formed ok ∧ (p.perform o).batch = p.batch.perform o := by
  cases o with
  | offer c => exact h.offer pos ho
  | add c => exact h.add pos ho
  | narrow premise indices => exact ⟨h.narrow _ _, h.batch_narrow pos _ _⟩

/-- Whatever a picker is told, it accepts what a list of candidates would. -/
theorem Formed.performAll (pos : ok.Positive) (h : p.Formed ok)
    (proper : ∀ o ∈ operations, Proper ok 0 o.premise.constraints) :
    (operations.foldl Picker.perform p).Formed ok ∧
      (operations.foldl Picker.perform p).batch = operations.foldl Batch.perform p.batch := by
  induction operations generalizing p with
  | nil => exact ⟨h, rfl⟩
  | cons o operations ih =>
    obtain ⟨formed, same⟩ := h.perform pos (proper o List.mem_cons_self)
    rw [List.foldl_cons, List.foldl_cons, ← same]
    exact ih formed fun o ho => proper o (List.mem_cons_of_mem _ ho)

theorem batch_offers (pos : ok.Positive) (proper : ∀ c ∈ offers, c.path.Proper ok 0) :
    (offers.foldl offer empty).batch = offers.foldl Batch.offer [] := by
  have told : ∀ o ∈ offers.map Operation.offer, Proper ok 0 o.premise.constraints := by
    intro o ho
    obtain ⟨c, hc, rfl⟩ := List.mem_map.mp ho
    exact proper c hc
  have all := ((formed_empty ok).performAll pos told).2
  rw [List.foldl_map, List.foldl_map] at all
  exact all

end Picker

end MatchingDependencies
