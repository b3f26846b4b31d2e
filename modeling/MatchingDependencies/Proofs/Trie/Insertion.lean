import MatchingDependencies.Proofs.Trie.Entries
import MatchingDependencies.Trie.Seek

/-!
# Insertion into a trie

Placing a path changes the value at its end and leaves the value of every
other path alone. On the way nodes are made for the beginnings of the path
that have none yet; they take the next numbers, one after the other. An
insertion looks at the values of exactly those nodes whose paths generalize
its own.
-/

set_option autoImplicit false

namespace MatchingDependencies.Branches

open MatchingDependencies.Path (Allowed Before)

variable {α : Type} {ok : Allowed} {first : Nat} (make : Nat → α) (final : α → α)

theorem chain_cons (number c : Nat) (t : Score) (p : Path) (after : Branches α) :
    chain make final number ((c, t)::p) after =
      edge c t (if p = [] then final (make number) else make number)
        (chain make final (number+1) p none) after := by
  cases p <;> rfl

theorem place_none (number : Nat) (p : Path) :
    place make final number p (none : Branches α) = chain make final number p none := by
  cases p <;> rfl

@[simp] theorem place_nil (number : Nat) (b : Branches α) :
    place make final number [] b = b := by
  cases b <;> rfl

theorem place_edge (number d : Nat) (s : Score) (p : Path) (c : Nat) (t : Score) (a : α)
    (below after : Branches α) :
    place make final number ((d, s)::p) (edge c t a below after) =
      if precedes c t d s then edge c t a below (place make final number ((d, s)::p) after)
      else if precedes d s c t then chain make final number ((d, s)::p) (edge c t a below after)
      else edge c t (if p = [] then final a else a) (place make final number p below) after := by
  cases p with
  | nil => rw [place_nil]; rfl
  | cons y p => rfl

/-! ## What is found afterwards -/

/-- What stands at the path `q` before and after the path `p` was placed: the
value at the end is changed, and beginnings of the path may have been made. -/
def Placed (p q : Path) (old new : Option α) : Prop :=
  (q = p → ∃ a, new = some (final a) ∧ (old = some a ∨ old = Option.none ∧ ∃ k, a = make k)) ∧
  (q ≠ p → new = old ∨ q <+: p ∧ old = Option.none ∧ ∃ k, new = some (make k))

variable {make final}

theorem Placed.refl (a : Option α) {p q : Path} (h : q ≠ p) : Placed make final p q a a :=
  ⟨fun e => absurd e h, fun _ => .inl rfl⟩

theorem Placed.cons {p q : Path} {old new : Option α} (h : Placed make final p q old new)
    (x : Nat × Score) : Placed make final (x::p) (x::q) old new := by
  constructor
  · intro eq
    exact h.1 (List.cons.inj eq).2
  · intro ne
    rcases h.2 fun eq => ne (congrArg _ eq) with same | ⟨beginning, rest⟩
    · exact .inl same
    · exact .inr ⟨(List.prefix_cons_inj x).mpr beginning, rest⟩

theorem placed_chain (nonzero : ok.Nonzero) (number : Nat) {p q : Path} (hp : p.Proper ok first)
    (np : p ≠ []) (nq : q ≠ []) (after : Branches α)
    (absent : p.head? = q.head? → ∀ r, after.find? q r = Option.none) (r : α) :
    Placed make final p q (after.find? q r)
      ((chain make final number p after).find? q r) := by
  induction p generalizing number q after r first with
  | nil => exact absurd rfl np
  | cons x p ih =>
    obtain ⟨c, t⟩ := x
    cases q with
    | nil => exact absurd rfl nq
    | cons y q =>
      obtain ⟨d, s⟩ := y
      rw [chain_cons, find?_edge]
      by_cases same : (c = d && t.rank == s.rank) = true
      · obtain ⟨rfl, rfl⟩ := Prod.mk.inj ((sameEdge_iff nonzero hp.2.1).mp same)
        rw [if_pos same, absent rfl r]
        cases q with
        | nil =>
          cases p with
          | nil => exact ⟨fun _ => ⟨_, rfl, .inr ⟨rfl, _, rfl⟩⟩, fun h => absurd rfl h⟩
          | cons z p =>
            refine ⟨fun h => by simp at h, fun _ => .inr ⟨?_, rfl, _, rfl⟩⟩
            exact (List.prefix_cons_inj _).mpr List.nil_prefix
        | cons z q =>
          cases p with
          | nil => exact ⟨fun h => by simp at h, fun _ => .inl rfl⟩
          | cons w p =>
            exact (ih (number+1) hp.2.2 (by simp) (by simp) none (fun _ _ => rfl)
              (make number)).cons (c, t)
      · rw [if_neg same]
        apply Placed.refl _
        intro eq
        exact same ((sameEdge_iff nonzero hp.2.1).mpr (List.cons.inj eq).1.symm)

theorem Proper.placed (nonzero : ok.Nonzero) (number : Nat) {b : Branches α}
    (hb : b.Proper ok first) {p q : Path} (hp : p.Proper ok first) (np : p ≠ []) (nq : q ≠ [])
    (r : α) :
    Placed make final p q (b.find? q r) ((b.place make final number p).find? q r) := by
  induction b generalizing first p q r with
  | none =>
    rw [place_none]
    refine placed_chain nonzero number hp np nq none (fun _ r => ?_) r
    cases q with
    | nil => exact absurd rfl nq
    | cons y q => rfl
  | edge c t a below after ihBelow ihAfter =>
    obtain ⟨le, ht, hBelow, follows, hAfter⟩ := hb
    cases p with
    | nil => exact absurd rfl np
    | cons x p =>
      obtain ⟨d, s⟩ := x
      cases q with
      | nil => exact absurd rfl nq
      | cons y q =>
        obtain ⟨e, u⟩ := y
        have same := sameEdge_iff (d := e) (s := u) nonzero ht
        rw [place_edge]
        -- The path goes along behind this edge, under it, or on a new edge in front of it.
        rcases edge_cases (x := (c, t)) (y := (d, s)) nonzero ht hp.2.1 with before | eq | before
        · rw [if_pos ((precedes_iff ..).mpr before), find?_edge, find?_edge]
          split
          · next h =>
            refine Placed.refl _ fun eq => before.ne ?_
            rw [same.mp h, (List.cons.inj eq).1]
          · exact ihAfter hAfter hp np nq r
        · obtain ⟨rfl, rfl⟩ := Prod.mk.inj eq
          have no : ¬precedes c t c t = true := fun h => ((precedes_iff ..).mp h).ne rfl
          rw [if_neg no, if_neg no, find?_edge, find?_edge]
          split
          · next h =>
            obtain ⟨rfl, rfl⟩ := Prod.mk.inj (same.mp h)
            cases q with
            | nil =>
              cases p with
              | nil => exact ⟨fun _ => ⟨_, rfl, .inl rfl⟩, fun h => absurd rfl h⟩
              | cons z p => exact Placed.refl _ (by simp)
            | cons z q =>
              cases p with
              | nil =>
                rw [place_nil]
                exact Placed.refl _ (by simp)
              | cons w p =>
                exact (ihBelow hBelow hp.2.2 (by simp) (by simp) a).cons (c, t)
          · next h =>
            refine Placed.refl _ fun eq => h ?_
            rw [same, (List.cons.inj eq).1]
        · rw [if_neg fun h => before.asymm ((precedes_iff ..).mp h),
            if_pos ((precedes_iff ..).mpr before)]
          have hb : (edge c t a below after).Proper ok first := ⟨le, ht, hBelow, follows, hAfter⟩
          refine placed_chain nonzero number hp np nq _ (fun eq r => ?_) r
          obtain ⟨rfl, rfl⟩ := Prod.mk.inj (Option.some.inj eq)
          exact hb.find?_eq_none nonzero before q r

/-! ## The new trie -/

theorem Follows.chain {x : Nat × Score} (number : Nat) {p : Path} {after : Branches α}
    (h : ∀ y ∈ p.head?, Before x y) (ha : after.Follows x) :
    (chain make final number p after).Follows x := by
  cases p with
  | nil => exact ha
  | cons y p =>
    obtain ⟨c, t⟩ := y
    rw [chain_cons]
    exact h (c, t) rfl

theorem proper_chain (number : Nat) {p : Path} (hp : p.Proper ok first) {after : Branches α}
    (ha : after.Proper ok first) (h : ∀ y ∈ p.head?, after.Follows y) :
    (chain make final number p after).Proper ok first := by
  induction p generalizing number first after with
  | nil => exact ha
  | cons y p ih =>
    obtain ⟨c, t⟩ := y
    rw [chain_cons]
    exact ⟨hp.1, hp.2.1, ih (number+1) hp.2.2 trivial fun _ _ => trivial, h _ rfl, ha⟩

theorem Follows.place {x : Nat × Score} (number : Nat) {p : Path} {b : Branches α}
    (h : ∀ y ∈ p.head?, Before x y) (hb : b.Follows x) :
    (b.place make final number p).Follows x := by
  cases b with
  | none => rw [place_none]; exact Follows.chain number h trivial
  | edge c t a below after =>
    cases p with
    | nil => exact hb
    | cons y p =>
      obtain ⟨d, s⟩ := y
      rw [place_edge]
      split
      · exact hb
      · split
        · exact Follows.chain number h hb
        · exact hb

theorem Proper.place (number : Nat) {b : Branches α} (hb : b.Proper ok first) {p : Path}
    (hp : p.Proper ok first) : (b.place make final number p).Proper ok first := by
  induction b generalizing first p with
  | none => rw [place_none]; exact proper_chain number hp trivial fun _ _ => trivial
  | edge c t a below after ihBelow ihAfter =>
    cases p with
    | nil => exact hb
    | cons x p =>
      obtain ⟨le, ht, hBelow, follows, hAfter⟩ := hb
      obtain ⟨d, s⟩ := x
      rw [place_edge]
      split
      · next before =>
        rw [precedes_iff] at before
        refine ⟨le, ht, hBelow, Follows.place number (fun y hy => ?_) follows, ihAfter hAfter hp⟩
        rw [List.head?_cons, Option.mem_some] at hy
        rwa [← hy]
      · next notBefore =>
        split
        · next behind =>
          rw [precedes_iff] at behind
          refine proper_chain number hp ⟨le, ht, hBelow, follows, hAfter⟩ fun y hy => ?_
          rw [List.head?_cons, Option.mem_some] at hy
          rwa [← hy]
        · next notBehind =>
          -- The edges are level, so the rest of the path goes below.
          obtain rfl : c = d := by
            simp only [precedes_iff, Before] at notBefore notBehind
            omega
          exact ⟨le, ht, ihBelow hBelow hp.2.2, follows, hAfter⟩

/-! ## Numbers -/

theorem depth_edge (d : Nat) (s : Score) (p : Path) (c : Nat) (t : Score) (a : α)
    (below after : Branches α) :
    depth ((d, s)::p) (edge c t a below after) =
      if c = d && t.rank == s.rank then depth p below + 1 else depth ((d, s)::p) after := by
  simp only [depth, child?]
  by_cases h : (c = d && t.rank == s.rank) = true
  · rw [if_pos h, if_pos h]
  · rw [if_neg h, if_neg h]

theorem Proper.depth_eq_zero {b : Branches α} (nonzero : ok.Nonzero) (hb : b.Proper ok first)
    {x : Nat × Score} (follows : b.Follows x) (p : Path) :
    b.depth (x::p) = 0 := by
  induction b with
  | none => rfl
  | edge c t a below after _ ihAfter =>
    rw [depth_edge, if_neg fun same => (follows.ne ((sameEdge_iff nonzero hb.2.1).mp same).symm)]
    exact ihAfter hb.2.2.2.2 (hb.2.2.2.1.trans follows)

def values (b : Branches α) : List α := b.entries.map (·.2)

@[simp] theorem values_none : (none : Branches α).values = [] := rfl

@[simp] theorem values_edge (c : Nat) (t : Score) (a : α) (below after : Branches α) :
    (edge c t a below after).values = a :: below.values ++ after.values := by
  simp [values, entries, List.map_map, Function.comp_def]

theorem numbers_chain (num : α → Nat) (made : ∀ k, num (make k) = k)
    (kept : ∀ a, num (final a) = num a) (number : Nat) (p : Path) (after : Branches α) :
    (chain make final number p after).values.map num =
      List.range' number p.length ++ after.values.map num := by
  induction p generalizing number after with
  | nil => rfl
  | cons x p ih =>
    obtain ⟨c, t⟩ := x
    rw [chain_cons, values_edge, List.cons_append, List.map_cons, List.map_append, ih,
      values_none, List.map_nil, List.append_nil, List.length_cons, List.range'_succ,
      List.cons_append]
    congr 1
    split <;> simp [made, kept]

theorem Proper.numbers_place (nonzero : ok.Nonzero) (num : α → Nat)
    (made : ∀ k, num (make k) = k) (kept : ∀ a, num (final a) = num a) (number : Nat)
    {b : Branches α} (hb : b.Proper ok first) {p : Path} (hp : p.Proper ok first) :
    ((b.place make final number p).values.map num).Perm
      (b.values.map num ++ List.range' number (p.length - b.depth p)) := by
  induction b generalizing first p with
  | none =>
    rw [place_none, numbers_chain num made kept]
    cases p <;> simp [depth, child?]
  | edge c t a below after ihBelow ihAfter =>
    cases p with
    | nil => simp [depth]
    | cons x p =>
      have whole := hb
      obtain ⟨le, ht, hBelow, follows, hAfter⟩ := hb
      obtain ⟨d, s⟩ := x
      rw [place_edge]
      rcases edge_cases (x := (c, t)) (y := (d, s)) nonzero ht hp.2.1 with before | eq | before
      · have differ : ¬(c = d && t.rank == s.rank) = true :=
          fun same => before.ne ((sameEdge_iff nonzero ht).mp same)
        rw [if_pos ((precedes_iff ..).mpr before), depth_edge, if_neg differ, values_edge,
          values_edge, List.map_append, List.map_append, List.append_assoc]
        exact (ihAfter hAfter hp).append_left _
      · obtain ⟨rfl, rfl⟩ := Prod.mk.inj eq
        have no : ¬precedes c t c t = true := fun h => ((precedes_iff ..).mp h).ne rfl
        have same : (c = c && t.rank == t.rank) = true := by simp
        have length : (List.length ((c, t)::p)) - (below.depth p + 1) =
            p.length - below.depth p := by simp
        rw [if_neg no, if_neg no, depth_edge, if_pos same, values_edge, values_edge, length]
        simp only [List.cons_append, List.map_cons, List.map_append, List.append_assoc]
        have here : num (if p = [] then final a else a) = num a := by split <;> simp [kept]
        rw [here]
        refine .cons _ (((ihBelow hBelow hp.2.2).append_right _).trans ?_)
        rw [List.append_assoc]
        exact List.perm_append_comm.append_left _
      · rw [if_neg fun h => before.asymm ((precedes_iff ..).mp h),
          if_pos ((precedes_iff ..).mpr before), numbers_chain num made kept,
          whole.depth_eq_zero nonzero before]
        exact List.perm_append_comm

/-! ## What an insertion looks at -/

theorem mem_covered_iff {meets : Nat → Score → Bool} {b : Branches α} {a : α} :
    a ∈ b.covered meets ↔ ∃ p, (p, a) ∈ b.entries ∧ allMet meets p := by
  rw [covered_eq, List.mem_map]
  constructor
  · rintro ⟨e, he, rfl⟩
    exact ⟨e.1, List.mem_filter.mp he⟩
  · rintro ⟨p, hp, met⟩
    exact ⟨(p, a), List.mem_filter.mpr ⟨hp, met⟩, rfl⟩

theorem mem_coveredVia_iff {via meets : Nat → Score → Bool} {b : Branches α} {a : α} :
    a ∈ b.coveredVia via meets ↔
      ∃ x p, (x::p, a) ∈ b.entries ∧ via x.1 x.2 ∧ allMet meets (x::p) := by
  induction b with
  | none => simp [coveredVia, entries]
  | edge c t v below after _ ihAfter =>
    have here : a ∈ (if via c t && meets c t then v :: covered meets below else []) ↔
        ∃ p, (((c, t)::p, a) = ([(c, t)], v) ∨ (p, a) ∈ below.entries) ∧ via c t ∧
          allMet meets ((c, t)::p) := by
      by_cases h : via c t = true ∧ meets c t = true
      · rw [if_pos (by simp [h]), List.mem_cons, mem_covered_iff]
        constructor
        · rintro (rfl | ⟨p, hp, met⟩)
          · exact ⟨[], .inl rfl, h.1, by simp [allMet, h.2]⟩
          · exact ⟨p, .inr hp, h.1, by simpa [allMet, h.2] using met⟩
        · rintro ⟨p, hp | hp, -, met⟩
          · exact .inl (Prod.mk.inj hp).2
          · exact .inr ⟨p, hp, by simpa [allMet, h.2] using met⟩
      · rw [if_neg (by simpa using h)]
        simp only [List.not_mem_nil, allMet, List.all_cons, Bool.and_eq_true, false_iff]
        rintro ⟨p, -, hv, hm, -⟩
        exact h ⟨hv, hm⟩
    rw [coveredVia, List.mem_append, here, ihAfter]
    simp only [entries, List.cons_append, List.mem_cons, List.mem_append, List.mem_map]
    constructor
    · rintro (⟨p, hp | hp, rest⟩ | ⟨x, p, hp, rest⟩)
      · exact ⟨(c, t), p, .inl hp, rest⟩
      · exact ⟨(c, t), p, .inr (.inl ⟨_, hp, rfl⟩), rest⟩
      · exact ⟨x, p, .inr (.inr hp), rest⟩
    · rintro ⟨x, p, hp | ⟨e, he, eq⟩ | hp, rest⟩
      · obtain ⟨rfl, rfl⟩ := List.cons.inj (Prod.mk.inj hp).1
        exact .inl ⟨[], .inl hp, rest⟩
      · obtain ⟨eqPath, rfl⟩ := Prod.mk.inj eq
        obtain ⟨rfl, rfl⟩ := List.cons.inj eqPath
        exact .inl ⟨e.1, .inr he, rest⟩
      · exact .inr ⟨x, p, hp, rest⟩

theorem Proper.child?_entries {b : Branches α} (nonzero : ok.Nonzero) (hb : b.Proper ok first)
    (c : Nat) (t : Score) :
    match b.child? c t with
    | Option.none => ∀ p x, ((c, t)::p, x) ∉ b.entries
    | some (a, below) => below.Proper ok (c+1) ∧
        ∀ p x, ((c, t)::p, x) ∈ b.entries ↔ p = [] ∧ x = a ∨ (p, x) ∈ below.entries := by
  induction b with
  | none => simp [child?, entries]
  | edge d s v below after _ ihAfter =>
    obtain ⟨le, hs, hBelow, follows, hAfter⟩ := hb
    rw [child?]
    by_cases same : (d = c && s.rank == t.rank) = true
    · obtain ⟨rfl, rfl⟩ := Prod.mk.inj ((sameEdge_iff nonzero hs).mp same)
      rw [if_pos same]
      refine ⟨hBelow, fun p x => ?_⟩
      have other : ((d, s)::p, x) ∉ after.entries := by
        intro he
        obtain ⟨y, q, eq, before⟩ := hAfter.mem_entries_follows follows _ he
        exact before.ne (List.cons.inj eq).1
      simp only [entries, List.cons_append, List.mem_cons, List.mem_append, List.mem_map, other,
        or_false, Prod.mk.injEq, List.cons.injEq, true_and]
      apply or_congr_right
      constructor
      · rintro ⟨e, he, rfl, rfl⟩
        exact he
      · exact fun h => ⟨_, h, rfl, rfl⟩
    · have differ : (d, s) ≠ (c, t) := fun eq => same ((sameEdge_iff nonzero hs).mpr eq)
      have skip : ∀ p x, ((c, t)::p, x) ∈ (edge d s v below after).entries ↔
          ((c, t)::p, x) ∈ after.entries := by
        intro p x
        simp only [entries, List.cons_append, List.mem_cons, List.mem_append, List.mem_map,
          Prod.mk.injEq, List.cons.injEq]
        constructor
        · rintro (⟨⟨⟨rfl, rfl⟩, -⟩, -⟩ | ⟨e, -, ⟨⟨rfl, rfl⟩, -⟩, -⟩ | h)
          · exact absurd rfl differ
          · exact absurd rfl differ
          · exact h
        · exact fun h => .inr (.inr h)
      rw [if_neg same]
      have rest := ihAfter hAfter
      cases found : after.child? c t with
      | none =>
        rw [found] at rest
        exact fun p x h => rest p x ((skip p x).mp h)
      | some found' =>
        rw [found] at rest
        exact ⟨rest.1, fun p x => (skip p x).trans (rest.2 p x)⟩

theorem Proper.edge_of_met {b : Branches α} (hb : b.Proper ok first)
    {c : Nat} {t : Score} {path : Path} (ht : t.IsNonzero) {meets : Nat → Score → Bool}
    (agree : ∀ d s, first ≤ d → meets d s = Path.meets ((c, t)::path) d s) {d : Nat} {s : Score}
    {p : Path} {x : α} (he : ((d, s)::p, x) ∈ b.entries)
    (met : allMet meets ((d, s)::p) = true) :
    c < d ∨ d = c ∧ s.same t = false ∨ (d, s) = (c, t) := by
  have hd := hb.mem_entries _ he
  simp only [allMet, List.all_cons, Bool.and_eq_true] at met
  have hm := met.1
  rw [agree d s hd.1, Path.meets] at hm
  by_cases lt : c < d
  · exact .inl lt
  · rw [if_neg lt, Bool.and_eq_true, decide_eq_true_iff] at hm
    by_cases same : s.same t = true
    · exact .inr (.inr (Prod.ext hm.1.symm (ht.ext ((Score.same_iff s t).mp same).1)))
    · exact .inr (.inl ⟨hm.1.symm, Bool.not_eq_true _ ▸ same⟩)

theorem Proper.mem_insertionOrder_child {b : Branches α} (nonzero : ok.Nonzero)
    (hb : b.Proper ok first) {c : Nat} {t : Score} {path : Path} {meets : Nat → Score → Bool}
    (here : meets c t = true) {x : α}
    (deeper : ∀ a (below : Branches α), below.Proper ok (c+1) →
      (x ∈ below.insertionOrder meets path a ↔
        x = a ∨ ∃ p, (p, x) ∈ below.entries ∧ allMet meets p)) :
    (x ∈ match b.child? c t with
      | Option.none => []
      | some (a, below) => insertionOrder meets path a below) ↔
        ∃ p, ((c, t)::p, x) ∈ b.entries ∧ allMet meets ((c, t)::p) := by
  have child := hb.child?_entries nonzero c t
  cases found : b.child? c t with
  | none =>
    rw [found] at child
    simp only [List.not_mem_nil, false_iff]
    rintro ⟨p, he, -⟩
    exact child p x he
  | some found' =>
    obtain ⟨a, below⟩ := found'
    rw [found] at child
    apply (deeper a below child.1).trans
    constructor
    · rintro (rfl | ⟨p, he, met⟩)
      · exact ⟨[], (child.2 [] x).mpr (.inl ⟨rfl, rfl⟩), by simp [allMet, here]⟩
      · exact ⟨p, (child.2 p x).mpr (.inr he), by simpa [allMet, here] using met⟩
    · rintro ⟨p, he, met⟩
      rcases (child.2 p x).mp he with ⟨rfl, rfl⟩ | he
      · exact .inl rfl
      · exact .inr ⟨p, he, by simpa [allMet, here] using met⟩

/-- An insertion looks at the node it starts from and at all nodes that meet
its constraints. -/
theorem Proper.mem_insertionOrder_iff {b : Branches α} (nonzero : ok.Nonzero)
    (hb : b.Proper ok first) {path : Path} (hp : path.Proper ok first)
    {meets : Nat → Score → Bool} (agree : ∀ d s, first ≤ d → meets d s = path.meets d s)
    (a x : α) :
    x ∈ b.insertionOrder meets path a ↔ x = a ∨ ∃ p, (p, x) ∈ b.entries ∧ allMet meets p := by
  -- The induction is on the path, since an insertion goes down along it.
  induction path generalizing b first a with
  | nil =>
    rw [insertionOrder, List.mem_singleton]
    refine (or_iff_left ?_).symm
    rintro ⟨p, he, met⟩
    cases p with
    | nil => exact b.ne_nil_of_mem_entries _ he rfl
    | cons y p =>
      have hy := hb.mem_entries _ he
      simp [allMet, agree _ _ hy.1, Path.meets] at met
  | cons y path ih =>
    obtain ⟨c, t⟩ := y
    have ht := nonzero c t hp.2.1
    have here : meets c t = true := by
      rw [agree c t hp.1, Path.meets, if_neg (Nat.lt_irrefl c)]
      simp
    have rest : ∀ d s, c+1 ≤ d → meets d s = Path.meets path d s := by
      intro d s le
      rw [agree d s (by have := hp.1; omega), Path.meets, if_pos (Nat.lt_of_succ_le le)]
    have below := hb.mem_insertionOrder_child nonzero here fun a _ proper =>
      ih proper hp.2.2 rest a
    rw [insertionOrder, List.mem_cons, List.mem_append, List.mem_append, mem_coveredVia_iff,
      mem_coveredVia_iff]
    apply or_congr_right
    apply (or_congr_right below).trans
    constructor
    · rintro ((⟨y, p, he, -, met⟩ | ⟨y, p, he, -, met⟩) | ⟨p, he, met⟩)
      · exact ⟨y::p, he, met⟩
      · exact ⟨y::p, he, met⟩
      · exact ⟨(c, t)::p, he, met⟩
    · rintro ⟨p, he, met⟩
      cases p with
      | nil => exact absurd rfl (b.ne_nil_of_mem_entries _ he)
      | cons y p =>
        obtain ⟨d, s⟩ := y
        rcases hb.edge_of_met ht agree he met with lt | ⟨eq, differ⟩ | eq
        · exact .inl (.inl ⟨_, p, he, by simpa using lt, met⟩)
        · exact .inl (.inr ⟨_, p, he, by simp [eq, differ], met⟩)
        · rw [eq] at he met
          exact .inr ⟨p, he, met⟩

end MatchingDependencies.Branches
