import MatchingDependencies.Counting
import MatchingDependencies.Proofs.Path.Premise
import MatchingDependencies.Trie

/-!
# The entries of a trie

The entries of a trie are its nodes with their paths, in trie order. In a
proper trie edges are sorted, so every path is the path of one node, finding a
path is finding its entry, and the listings of a trie are parts of the list of
entries.
-/

set_option autoImplicit false

namespace MatchingDependencies

namespace Path

def Before (x y : Nat × Score) : Prop :=
  x.1 < y.1 ∨ x.1 = y.1 ∧ x.2.height < y.2.height

/-- The order of paths in a trie: a path comes before what it begins, and
otherwise the first difference decides. -/
abbrev Precedes (p q : Path) : Prop := List.Lex Before p q

theorem Before.ne {x y : Nat × Score} (h : Before x y) : x ≠ y := by
  rintro rfl
  rcases h with h | h <;> omega

theorem Before.trans {x y z : Nat × Score} (h : Before x y) (h' : Before y z) : Before x z := by
  unfold Before at *
  omega

theorem Before.asymm {x y : Nat × Score} (h : Before x y) : ¬Before y x := by
  unfold Before at *
  omega

theorem Precedes.asymm {p q : Path} (h : Precedes p q) : ¬Precedes q p := by
  induction h with
  | nil => nofun
  | rel h =>
    intro h'
    cases h' with
    | rel h' => exact h.asymm h'
    | cons h' => exact h.ne rfl
  | cons h ih =>
    intro h'
    cases h' with
    | rel h' => exact h'.ne rfl
    | cons h' => exact ih h'

end Path

namespace Branches

open MatchingDependencies.Path (Allowed Before Precedes)

variable {α : Type} {ok : Allowed} {first : Nat}

def entries : Branches α → List (Path × α)
  | none => []
  | edge c t a below after =>
    ([(c, t)], a) :: below.entries.map (fun e => ((c, t)::e.1, e.2)) ++ after.entries

def Follows (x : Nat × Score) : Branches α → Prop
  | none => True
  | edge c t _ _ _ => Before x (c, t)

/-- Edges are sorted, columns increase downwards, and thresholds are allowed. -/
def Proper (ok : Allowed) : (first : Nat) → Branches α → Prop
  | _, none => True
  | first, edge c t _ below after =>
    first ≤ c ∧ ok c t ∧ Proper ok (c+1) below ∧ after.Follows (c, t) ∧ Proper ok first after

theorem precedes_iff (c : Nat) (t : Score) (d : Nat) (s : Score) :
    precedes c t d s = true ↔ Before (c, t) (d, s) := by
  simp [precedes, Before, Score.rank_lt_iff]

theorem Follows.trans {x y : Nat × Score} {b : Branches α} (h : Before x y) (hb : b.Follows y) :
    b.Follows x := by
  cases b with
  | none => trivial
  | edge => exact h.trans hb

theorem sameEdge_iff (nonzero : ok.Nonzero) {c d : Nat} {t s : Score} (ht : ok c t) :
    (c = d && t.rank == s.rank) = true ↔ (c, t) = (d, s) := by
  rw [Bool.and_eq_true, decide_eq_true_iff, beq_iff_eq, Score.rank_eq_iff, Prod.mk.injEq]
  refine and_congr_right fun _ => ⟨fun h => ((nonzero c t ht).ext h.symm).symm, ?_⟩
  rintro rfl
  rfl

theorem edge_cases {x y : Nat × Score} (nonzero : ok.Nonzero) (hx : ok x.1 x.2)
    (hy : ok y.1 y.2) : Before x y ∨ x = y ∨ Before y x := by
  obtain ⟨c, t⟩ := x
  obtain ⟨d, s⟩ := y
  by_cases e : c = d ∧ t.height = s.height
  · exact .inr (.inl (Prod.ext e.1 ((nonzero d s hy).ext e.2)))
  · simp only [Before]
    omega

/-! ## Paths of entries -/

theorem ne_nil_of_mem_entries (b : Branches α) : ∀ e ∈ b.entries, e.1 ≠ [] := by
  induction b with
  | none => simp [entries]
  | edge c t a below after _ ihAfter =>
    intro e he
    simp only [entries, List.cons_append, List.mem_cons, List.mem_append, List.mem_map] at he
    rcases he with rfl | ⟨e, -, rfl⟩ | he
    · simp
    · simp
    · exact ihAfter e he

theorem Proper.mem_entries_follows {b : Branches α} (hb : b.Proper ok first) {x : Nat × Score}
    (follows : b.Follows x) : ∀ e ∈ b.entries, ∃ y p, e.1 = y::p ∧ Before x y := by
  induction b with
  | none => simp [entries]
  | edge c t a below after _ ihAfter =>
    intro e he
    simp only [entries, List.cons_append, List.mem_cons, List.mem_append, List.mem_map] at he
    rcases he with rfl | ⟨e, -, rfl⟩ | he
    · exact ⟨_, _, rfl, follows⟩
    · exact ⟨_, _, rfl, follows⟩
    · exact ihAfter hb.2.2.2.2 (hb.2.2.2.1.trans follows) e he

theorem Proper.mem_entries {b : Branches α} (hb : b.Proper ok first) :
    ∀ e ∈ b.entries, e.1.Proper ok first := by
  induction b generalizing first with
  | none => simp [entries]
  | edge c t a below after ihBelow ihAfter =>
    intro e he
    obtain ⟨le, ht, hBelow, -, hAfter⟩ := hb
    simp only [entries, List.cons_append, List.mem_cons, List.mem_append, List.mem_map] at he
    rcases he with rfl | ⟨e, he, rfl⟩ | he
    · exact ⟨le, ht, trivial⟩
    · exact ⟨le, ht, ihBelow hBelow e he⟩
    · exact ihAfter hAfter e he

theorem Proper.entries_sorted {b : Branches α} (hb : b.Proper ok first) :
    b.entries.Pairwise fun e f => Precedes e.1 f.1 := by
  induction b generalizing first with
  | none => exact List.Pairwise.nil
  | edge c t a below after ihBelow ihAfter =>
    obtain ⟨le, ht, hBelow, follows, hAfter⟩ := hb
    have behind := hAfter.mem_entries_follows follows
    rw [entries, List.cons_append, List.pairwise_cons, List.pairwise_append, List.pairwise_map]
    refine ⟨?_, ?_, ihAfter hAfter, ?_⟩
    · intro e he
      rcases List.mem_append.mp he with he | he
      · obtain ⟨⟨p, x⟩, he', rfl⟩ := List.mem_map.mp he
        have deeper := below.ne_nil_of_mem_entries _ he'
        cases p with
        | nil => exact absurd rfl deeper
        | cons y p => exact .cons .nil
      · obtain ⟨y, p, eq, before⟩ := behind e he
        rw [eq]
        exact .rel before
    · exact (ihBelow hBelow).imp .cons
    · intro e he f hf
      obtain ⟨e, he, rfl⟩ := List.mem_map.mp he
      obtain ⟨y, p, eq, before⟩ := behind f hf
      rw [eq]
      exact .rel before

/-! ## Finding a path -/

theorem find?_edge (d : Nat) (s : Score) (p : Path) (r : α) (c : Nat) (t : Score) (a : α)
    (below after : Branches α) :
    find? ((d, s)::p) r (edge c t a below after) =
      if c = d && t.rank == s.rank then find? p a below else find? ((d, s)::p) r after := by
  simp only [find?, child?]
  by_cases h : (c = d && t.rank == s.rank) = true
  · rw [if_pos h, if_pos h]
  · rw [if_neg h, if_neg h]

@[simp] theorem find?_none (x : Nat × Score) (p : Path) (r : α) :
    find? (x::p) r (none : Branches α) = Option.none := rfl

theorem Proper.find?_eq_none {b : Branches α} (nonzero : ok.Nonzero) (hb : b.Proper ok first)
    {x : Nat × Score} (follows : b.Follows x) (p : Path) (r : α) :
    b.find? (x::p) r = Option.none := by
  induction b with
  | none => rfl
  | edge c t a below after _ ihAfter =>
    rw [find?_edge, if_neg fun same => (follows.ne ((sameEdge_iff nonzero hb.2.1).mp same).symm)]
    exact ihAfter hb.2.2.2.2 (hb.2.2.2.1.trans follows)

theorem Proper.find?_eq_some_iff {b : Branches α} (nonzero : ok.Nonzero) (hb : b.Proper ok first)
    {p : Path} (ne : p ≠ []) (r a : α) :
    b.find? p r = some a ↔ (p, a) ∈ b.entries := by
  induction b generalizing first p r with
  | none =>
    cases p with
    | nil => exact absurd rfl ne
    | cons x p => simp [entries]
  | edge c t v below after ihBelow ihAfter =>
    obtain ⟨le, ht, hBelow, follows, hAfter⟩ := hb
    cases p with
    | nil => exact absurd rfl ne
    | cons x p =>
      obtain ⟨d, s⟩ := x
      rw [find?_edge]
      by_cases same : (c = d && t.rank == s.rank) = true
      · have eq := (sameEdge_iff nonzero ht).mp same
        obtain ⟨rfl, rfl⟩ := Prod.mk.inj eq
        -- Edges are sorted, so no later one has the same column and threshold.
        have other : ((c, t)::p, a) ∉ after.entries := by
          intro he
          obtain ⟨y, q, eq, before⟩ := hAfter.mem_entries_follows follows _ he
          exact before.ne (List.cons.inj eq).1
        rw [if_pos same]
        cases p with
        | nil =>
          have deeper := below.ne_nil_of_mem_entries
          simp only [find?, Option.some.injEq, entries, List.cons_append, List.mem_cons,
            List.mem_append, List.mem_map, other, or_false, Prod.mk.injEq, true_and]
          constructor
          · rintro rfl
            exact .inl rfl
          · rintro (rfl | ⟨e, he, eq, -⟩)
            · rfl
            · exact absurd (List.cons.inj eq).2 (deeper e he)
        | cons y p =>
          rw [ihBelow hBelow (by simp)]
          simp only [entries, List.cons_append, List.mem_cons, List.mem_append, List.mem_map,
            other, or_false, Prod.mk.injEq, List.cons.injEq, reduceCtorEq, and_false, false_and,
            false_or, true_and]
          constructor
          · exact fun h => ⟨_, h, rfl, rfl⟩
          · rintro ⟨e, he, eq, rfl⟩
            rwa [← eq]
      · have differ : (c, t) ≠ (d, s) := fun eq => same ((sameEdge_iff nonzero ht).mpr eq)
        rw [if_neg same, ihAfter hAfter (by simp)]
        simp only [entries, List.cons_append, List.mem_cons, List.mem_append, List.mem_map,
          Prod.mk.injEq, List.cons.injEq]
        constructor
        · exact fun h => .inr (.inr h)
        · rintro (⟨⟨⟨rfl, rfl⟩, -⟩, -⟩ | ⟨e, -, ⟨⟨rfl, rfl⟩, -⟩, -⟩ | h)
          · exact absurd rfl differ
          · exact absurd rfl differ
          · exact h

/-! ## Changing a value -/

theorem modify_nil (f : α → α) (b : Branches α) : b.modify f [] = b := by
  cases b <;> rfl

theorem modify_edge (f : α → α) (d : Nat) (s : Score) (p : Path) (c : Nat) (t : Score) (a : α)
    (below after : Branches α) :
    modify f ((d, s)::p) (edge c t a below after) =
      if c = d && t.rank == s.rank then
        edge c t (if p = [] then f a else a) (modify f p below) after
      else edge c t a below (modify f ((d, s)::p) after) := by
  cases p with
  | nil => rw [modify_nil]; rfl
  | cons y p => rfl

theorem map_of_forall_ne (f : α → α) {l : List (Path × α)} {p : Path}
    (h : ∀ e ∈ l, e.1 ≠ p) :
    l.map (fun e => (e.1, if e.1 = p then f e.2 else e.2)) = l := by
  induction l with
  | nil => rfl
  | cons e l ih =>
    rw [List.map_cons, if_neg (h e List.mem_cons_self),
      ih fun e he => h e (List.mem_cons_of_mem _ he)]

theorem Proper.entries_modify {b : Branches α} (nonzero : ok.Nonzero) (hb : b.Proper ok first)
    {p : Path} (ne : p ≠ []) (f : α → α) :
    (b.modify f p).entries = b.entries.map fun e => (e.1, if e.1 = p then f e.2 else e.2) := by
  induction b generalizing first p with
  | none => rfl
  | edge c t v below after ihBelow ihAfter =>
    obtain ⟨le, ht, hBelow, follows, hAfter⟩ := hb
    cases p with
    | nil => exact absurd rfl ne
    | cons x p =>
      obtain ⟨d, s⟩ := x
      by_cases same : (c = d && t.rank == s.rank) = true
      · have eq := (sameEdge_iff nonzero ht).mp same
        obtain ⟨rfl, rfl⟩ := Prod.mk.inj eq
        have other : ∀ e ∈ after.entries, e.1 ≠ (c, t)::p := by
          intro e he eq
          obtain ⟨y, q, eq', before⟩ := hAfter.mem_entries_follows follows e he
          rw [eq] at eq'
          exact before.ne (List.cons.inj eq').1
        cases p with
        | nil =>
          have deeper : ∀ e ∈ below.entries.map (fun e => ((c, t)::e.1, e.2)),
              e.1 ≠ [(c, t)] := by
            intro e he
            obtain ⟨e, he', rfl⟩ := List.mem_map.mp he
            simpa using below.ne_nil_of_mem_entries e he'
          rw [modify_edge, if_pos same, entries, entries, List.map_append, List.map_cons,
            map_of_forall_ne f other, map_of_forall_ne f deeper, if_pos rfl, modify_nil, if_pos rfl]
        | cons y p =>
          rw [modify_edge, if_pos same, entries, entries, List.map_append, List.map_cons,
            map_of_forall_ne f other, if_neg (by simp), ihBelow hBelow (by simp), List.map_map,
            List.map_map, if_neg (by simp)]
          congr 2
          apply List.map_congr_left
          intro e _
          simp
      · have differ : (c, t) ≠ (d, s) := fun eq => same ((sameEdge_iff nonzero ht).mpr eq)
        have here : ∀ e ∈ below.entries.map (fun e => ((c, t)::e.1, e.2)),
            e.1 ≠ (d, s)::p := by
          intro e he eq
          obtain ⟨e, -, rfl⟩ := List.mem_map.mp he
          exact differ (List.cons.inj eq).1
        rw [modify_edge, if_neg same, entries, entries, List.map_append, List.map_cons,
          map_of_forall_ne f here, ihAfter hAfter (by simp),
          if_neg fun eq => differ (List.cons.inj eq).1]

theorem Follows.modify {b : Branches α} {x : Nat × Score} (h : b.Follows x) (f : α → α)
    (p : Path) : (b.modify f p).Follows x := by
  cases b with
  | none => cases p <;> trivial
  | edge c t a below after =>
    cases p with
    | nil => exact h
    | cons y p =>
      obtain ⟨d, s⟩ := y
      rw [modify_edge]
      split <;> exact h

theorem Proper.modify {b : Branches α} (hb : b.Proper ok first) (f : α → α) (p : Path) :
    (b.modify f p).Proper ok first := by
  induction b generalizing first p with
  | none => cases p <;> trivial
  | edge c t a below after ihBelow ihAfter =>
    obtain ⟨le, ht, hBelow, follows, hAfter⟩ := hb
    cases p with
    | nil => exact ⟨le, ht, hBelow, follows, hAfter⟩
    | cons y p =>
      obtain ⟨d, s⟩ := y
      rw [modify_edge]
      split
      · exact ⟨le, ht, ihBelow hBelow _, follows, hAfter⟩
      · exact ⟨le, ht, hBelow, follows.modify f _, ihAfter hAfter _⟩

/-! ## Listings -/

def allMet (meets : Nat → Score → Bool) (p : Path) : Bool := p.all fun x => meets x.1 x.2

theorem allMet_iff (pos : ok.Positive) {g p : Path} (hg : g.Proper ok first)
    (hp : p.Proper ok first) : allMet p.meets g = true ↔ g.Generalizes p := by
  rw [Path.generalizes_iff_forall_mem hg (hp.demand_nonneg pos), allMet, List.all_eq_true]
  apply forall₂_congr
  intro x hx
  exact hp.meets_iff x.1 x.2 (pos _ _ (hg.allowed x hx)).1

theorem reached_eq (meets : Nat → Score → Bool) (v : Scores) (b : Branches α) :
    b.reached meets v =
      (b.entries.filter fun e => allMet meets e.1).map fun e => (e.1.writeTo v, e.2) := by
  induction b generalizing v with
  | none => rfl
  | edge c t a below after ihBelow ihAfter =>
    have deeper : (below.entries.map fun e => ((c, t)::e.1, e.2)).filter
        (fun e => allMet meets e.1) =
          if meets c t then (below.entries.filter fun e => allMet meets e.1).map
            fun e => ((c, t)::e.1, e.2) else [] := by
      rw [List.filter_map]
      split
      · next h => simp [Function.comp_def, allMet, h]
      · next h => simp [Function.comp_def, allMet, h]
    rw [reached, entries, List.cons_append, List.filter_cons, List.filter_append, deeper,
      ihAfter, ihBelow]
    by_cases h : meets c t = true <;>
      simp [h, allMet, Path.writeTo, List.map_map, Function.comp_def]

theorem covered_eq (meets : Nat → Score → Bool) (b : Branches α) :
    b.covered meets = (b.entries.filter fun e => allMet meets e.1).map (·.2) := by
  have h := congrArg (List.map Prod.snd) (reached_eq meets [] b)
  rw [List.map_map] at h
  rw [show (fun e : Path × α => e.2) = Prod.snd ∘ fun e => (e.1.writeTo [], e.2) from rfl, ← h]
  clear h
  generalize ([] : Scores) = v
  induction b generalizing v with
  | none => rfl
  | edge c t a below after ihBelow ihAfter =>
    rw [covered, reached, List.map_append, ← ihAfter v, ihBelow (v.set c t)]
    split <;> rfl

theorem behind_eq_some_iff (nonzero : ok.Nonzero) {c : Nat} {t : Score} (ht : ok c t)
    (left : Option Path) (p : Path) : behind c t left = some p ↔ left = some ((c, t)::p) := by
  have number := nonzero c t ht
  match left with
  | Option.none => simp [behind]
  | some [] => simp [behind]
  | some ((d, s)::q) =>
    have same : t.same s = true ↔ s = t := by
      rw [Score.same_iff]
      constructor
      · exact fun h => number.ext h.1.symm
      · rintro rfl
        exact ⟨rfl, number.2⟩
    by_cases eq : c = d ∧ t.same s = true
    · obtain ⟨rfl, test⟩ := eq
      obtain rfl := same.mp test
      simp [behind, test]
    · have differ : (d, s) ≠ (c, t) := fun h =>
        eq ⟨(Prod.mk.inj h).1.symm, same.mpr (Prod.mk.inj h).2⟩
      simp [behind, eq, differ]

theorem Proper.coveredBeside_eq {b : Branches α} (nonzero : ok.Nonzero) (hb : b.Proper ok first)
    (meets : Nat → Score → Bool) (left : Option Path) :
    b.coveredBeside meets left =
      (b.entries.filter fun e => allMet meets e.1 && left ≠ some e.1).map (·.2) := by
  induction b generalizing first left with
  | none => rfl
  | edge c t a below after ihBelow ihAfter =>
    obtain ⟨-, ht, hBelow, -, hAfter⟩ := hb
    have here : (left = some [(c, t)]) = (behind c t left = some []) :=
      propext (behind_eq_some_iff nonzero ht left []).symm
    have deeper : (below.entries.map fun e => ((c, t)::e.1, e.2)).filter
        (fun e => allMet meets e.1 && left ≠ some e.1) =
          if meets c t then (below.entries.filter fun e =>
            allMet meets e.1 && behind c t left ≠ some e.1).map fun e => ((c, t)::e.1, e.2)
          else [] := by
      rw [List.filter_map]
      by_cases h : meets c t = true
      · simp [Function.comp_def, allMet, h, behind_eq_some_iff nonzero ht]
      · simp [Function.comp_def, allMet, h]
    rw [coveredBeside, entries, List.cons_append, List.filter_cons, List.filter_append, deeper,
      ihAfter hAfter]
    dsimp only
    rw [ihBelow hBelow]
    by_cases h : meets c t = true
    · by_cases last : behind c t left = some [] <;>
        simp [h, here, last, allMet, List.map_map, Function.comp_def]
    · simp [h, allMet]

theorem sumOver_pos {cost : Nat → Score → Nat} (positive : ∀ c t, 0 < cost c t) {p : Path}
    (ne : p ≠ []) : 0 < sumOver (fun x => cost x.1 x.2) p := by
  cases p with
  | nil => exact absurd rfl ne
  | cons x p =>
    have := positive x.1 x.2
    rw [sumOver_cons]
    omega

theorem atLevel_eq {cost : Nat → Score → Nat} (positive : ∀ c t, 0 < cost c t) (v : Scores)
    (b : Branches α) (level : Nat) :
    b.atLevel cost level v =
      (b.entries.filter fun e => sumOver (fun x => cost x.1 x.2) e.1 = level).map
        fun e => (e.1.writeTo v, e.2) := by
  induction b generalizing v level with
  | none => rfl
  | edge c t a below after ihBelow ihAfter =>
    have deeper : ∀ e ∈ below.entries, 0 < sumOver (fun x => cost x.1 x.2) e.1 :=
      fun e he => sumOver_pos positive (below.ne_nil_of_mem_entries e he)
    rw [atLevel, entries, List.cons_append, List.filter_cons, List.filter_append,
      List.filter_map, ihAfter v]
    simp only [Function.comp_def, sumOver_cons, sumOver_nil, Nat.add_zero]
    by_cases lt : cost c t < level
    · have rest : ∀ n, cost c t + n = level ↔ n = level - cost c t := by omega
      rw [if_pos lt, ihBelow, if_neg (by simp; omega)]
      simp [rest, Path.writeTo, List.map_map, Function.comp_def]
    · have nothing : below.entries.filter
          (fun e => cost c t + sumOver (fun x => cost x.1 x.2) e.1 = level) = [] := by
        rw [List.filter_eq_nil_iff]
        intro e he
        have := deeper e he
        simp only [decide_eq_true_iff]
        omega
      rw [if_neg lt, nothing]
      split <;> simp_all [Path.writeTo]

end Branches

end MatchingDependencies
