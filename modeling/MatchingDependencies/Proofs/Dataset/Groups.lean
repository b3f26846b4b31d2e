import Mathlib.Data.List.Nodup
import Mathlib.Data.List.Perm.Basic
import MatchingDependencies.PairGroup
import MatchingDependencies.Proofs.Dataset.Kinds
import MatchingDependencies.Proofs.Dataset.Pairs

/-!
# The groups of a premise

The groups of a premise are its satisfying record pairs: each of these stands
in one group, and nothing else does. So the pairs that the groups count are the
support of the premise.
-/

set_option autoImplicit false

namespace MatchingDependencies

/-! ## Common records -/

theorem commonRecords_sublist (as bs : List Nat) : (commonRecords as bs).Sublist as := by
  fun_induction commonRecords as bs with
  | case1 as b bs ih => exact ih.cons_cons b
  | case2 a as b bs ne lt ih => exact ih.cons a
  | case3 a as b bs ne le ih => exact ih
  | case4 => exact List.nil_sublist _

theorem mem_commonRecords_iff {as bs : List Nat} (ha : as.Pairwise (· < ·))
    (hb : bs.Pairwise (· < ·)) (x : Nat) : x ∈ commonRecords as bs ↔ x ∈ as ∧ x ∈ bs := by
  fun_induction commonRecords as bs with
  | case1 as b bs ih =>
    have rest := ih (List.pairwise_cons.mp ha).2 (List.pairwise_cons.mp hb).2
    rw [List.mem_cons, List.mem_cons, List.mem_cons, rest, or_and_left]
  | case2 a as b bs ne lt ih =>
    rw [ih (List.pairwise_cons.mp ha).2 hb, List.mem_cons (a := x) (b := a)]
    refine ⟨fun h => ⟨.inr h.1, h.2⟩, fun h => ⟨h.1.resolve_left ?_, h.2⟩⟩
    rintro rfl
    rcases List.mem_cons.mp h.2 with eq | mem
    · exact ne eq
    · have := (List.pairwise_cons.mp hb).1 x mem
      omega
  | case3 a as b bs ne le ih =>
    rw [ih ha (List.pairwise_cons.mp hb).2, List.mem_cons (a := x) (b := b)]
    refine ⟨fun h => ⟨h.1, .inr h.2⟩, fun h => ⟨h.1, h.2.resolve_left ?_⟩⟩
    rintro rfl
    rcases List.mem_cons.mp h.1 with eq | mem
    · exact ne eq.symm
    · have := (List.pairwise_cons.mp ha).1 x mem
      omega
  | case4 as bs none =>
    cases as with
    | nil => simp
    | cons a as =>
      cases bs with
      | nil => simp
      | cons b bs => exact absurd rfl (none a as b bs rfl)

theorem foldUntil_commonRecords (rest : List (List Nat)) {records : List Nat}
    (first : records.Pairwise (· < ·)) (sorted : ∀ l ∈ rest, l.Pairwise (· < ·)) :
    (foldUntil List.isEmpty commonRecords rest records).Pairwise (· < ·) ∧
      ∀ x, x ∈ foldUntil List.isEmpty commonRecords rest records ↔
        x ∈ records ∧ ∀ l ∈ rest, x ∈ l := by
  induction rest generalizing records with
  | nil => exact ⟨first, fun x => by simp [foldUntil]⟩
  | cons l rest ih =>
    rw [foldUntil]
    split
    · next empty =>
      rw [List.isEmpty_iff.mp empty]
      exact ⟨.nil, by simp⟩
    · obtain ⟨stays, mem⟩ := ih (first.sublist (commonRecords_sublist records l))
        fun m hm => sorted m (List.mem_cons_of_mem _ hm)
      refine ⟨stays, fun x => ?_⟩
      rw [mem, mem_commonRecords_iff first (sorted l List.mem_cons_self), List.forall_mem_cons,
        and_assoc]

theorem commonToAll_spec {lists : List (List Nat)} (some : lists ≠ [])
    (sorted : ∀ l ∈ lists, l.Pairwise (· < ·)) : (commonToAll lists).Pairwise (· < ·) ∧
      ∀ x, x ∈ commonToAll lists ↔ ∀ l ∈ lists, x ∈ l := by
  have perm := List.mergeSort_perm lists fun as bs => decide (as.length ≤ bs.length)
  rw [commonToAll]
  split
  · next empty =>
    rw [empty] at perm
    exact absurd (List.nil_perm.mp perm) some
  · next records rest eq =>
    rw [eq] at perm
    obtain ⟨stays, mem⟩ := foldUntil_commonRecords rest
      (sorted records (perm.subset List.mem_cons_self))
      fun l hl => sorted l (perm.subset (List.mem_cons_of_mem _ hl))
    refine ⟨stays, fun x => ?_⟩
    rw [mem, ← List.forall_mem_cons (p := fun l => x ∈ l)]
    exact forall_congr' fun l => by rw [perm.mem_iff]

theorem commonToAll_singleton (records : List Nat) : commonToAll [records] = records := by
  simp [commonToAll, foldUntil]

theorem commonToAll_filter {α : Type} (n : Nat) (tests : List α) (test : α → Nat → Bool)
    (some : tests ≠ []) :
    commonToAll (tests.map fun a => (List.range n).filter (test a)) =
      (List.range n).filter fun x => tests.all fun a => test a x := by
  have ascending : ∀ l ∈ tests.map (fun a => (List.range n).filter (test a)),
      l.Pairwise (· < ·) := by
    intro l hl
    obtain ⟨a, -, rfl⟩ := List.mem_map.mp hl
    exact List.pairwise_lt_range.filter _
  obtain ⟨sorted, mem⟩ := commonToAll_spec (by simpa using some) ascending
  refine eq_of_sorted (r := (· < ·)) (fun _ _ => Nat.lt_asymm) sorted
    (List.pairwise_lt_range.filter _) fun x => ?_
  rw [mem, List.forall_mem_map, List.mem_filter, List.mem_range, List.all_eq_true]
  simp only [List.mem_filter, List.mem_range]
  obtain ⟨a, ha⟩ := List.exists_mem_of_ne_nil _ some
  exact ⟨fun h => ⟨(h a ha).1, fun b hb => (h b hb).2⟩, fun h b hb => ⟨h.1, h.2 b hb⟩⟩

/-! ## Looking up several sets -/

/-- A lookup finds what is expected of it, unless it fails. -/
def Answers {β : Type} (failed : Prop) (expected : β) : Option β → Prop
  | none => failed
  | some b => b = expected

theorem mapM_answers {α β : Type} {f : α → Option β} {g : α → β} {q : α → Prop} {as : List α}
    (h : ∀ a ∈ as, Answers (q a) (g a) (f a)) : Answers (∃ a ∈ as, q a) (as.map g) (as.mapM f) := by
  induction as with
  | nil => rfl
  | cons a as ih =>
    have first := h a List.mem_cons_self
    have rest := ih fun b hb => h b (List.mem_cons_of_mem _ hb)
    rw [List.mapM_cons]
    cases fa : f a with
    | none =>
      rw [fa] at first
      exact ⟨a, List.mem_cons_self, first⟩
    | some b =>
      rw [fa] at first
      cases fas : as.mapM f with
      | none =>
        rw [fas] at rest
        obtain ⟨c, hc, hf⟩ := rest
        exact ⟨c, List.mem_cons_of_mem _ hc, hf⟩
      | some bs =>
        rw [fas] at rest
        exact congrArg₂ List.cons first rest

namespace Dataset

variable {d : Dataset}

def meeting (d : Dataset) (left : Record) (x : Nat × Score) : List Nat :=
  (List.range d.rightCount).filter fun r =>
    x.2.height ≤ (d.similarity x.1 left (d.rightRecord r)).height

def rightsOf (d : Dataset) (premise : Scores) (left : Record) : List Nat :=
  (List.range d.rightCount).filter fun r => (d.profile left (d.rightRecord r)).satisfies premise

namespace Sound

variable (hd : d.Sound)

include hd

theorem clustered {i : Nat} (hi : i < d.width) :
    Clustered (d.tables.right.column (d.columnMatch i).right).clusters d.rightCount
      fun r => (d.rightRecord r).getD (d.columnMatch i).right 0 :=
  fun v hv => hd.right.clusters _ (hd.columns i hi).2 v hv

theorem recordsFor?_spec {left : Record} {x : Nat × Score} (hx : x.1 < d.width)
    (ht : 0 < x.2.height) (hv : left.getD (d.columnMatch x.1).left 0 <
      (d.tables.left.column (d.columnMatch x.1).left).size) :
    Answers (d.meeting left x = []) (d.meeting left x)
      ((d.comparison x.1).recordsFor? (left.getD (d.columnMatch x.1).left 0) x.2) := by
  have spec := (hd.comparisons x.1 hx).records _ hv _ _ (hd.clustered hx) x.2 ht
  cases found : (d.comparison x.1).recordsFor? (left.getD (d.columnMatch x.1).left 0) x.2 with
  | none =>
    rw [found] at spec
    rw [meeting, List.filter_eq_nil_iff]
    intro r _
    have := spec ((d.rightRecord r).getD (d.columnMatch x.1).right 0)
    rw [decide_eq_true_iff]
    exact Int.not_le.mpr this
  | some records =>
    rw [found] at spec
    exact spec.2

theorem recordsFor?_ne_nil {x : Nat × Score} (hx : x.1 < d.width) (ht : 0 < x.2.height) {v : Nat}
    (hv : v < (d.tables.left.column (d.columnMatch x.1).left).size) {records : List Nat}
    (found : (d.comparison x.1).recordsFor? v x.2 = some records) : records ≠ [] := by
  have spec := (hd.comparisons x.1 hx).records _ hv _ _ (hd.clustered hx) x.2 ht
  rw [found] at spec
  obtain ⟨⟨r, hr, reached⟩, rfl⟩ := spec
  obtain ⟨right, inside, eq⟩ := hd.right.occurs _ (hd.columns x.1 hx).2 r hr
  have value : (d.rightRecord right).getD (d.columnMatch x.1).right 0 = r := eq
  refine List.ne_nil_of_mem (a := right) (List.mem_filter.mpr ⟨List.mem_range.mpr inside, ?_⟩)
  rw [decide_eq_true_iff, value]
  exact reached

theorem recordSets?_spec {left : Record} {column : Nat} {constraints : Path}
    (hx : ∀ x ∈ constraints, x.1 < d.width ∧ 0 < x.2.height ∧ (d.columnMatch x.1).left = column)
    (hv : left.getD column 0 < (d.tables.left.column column).size) :
    Answers (∃ x ∈ constraints, d.meeting left x = []) (constraints.map (d.meeting left))
      (d.recordSets? constraints (left.getD column 0)) := by
  apply mapM_answers
  intro x hxm
  obtain ⟨inside, positive, eq⟩ := hx x hxm
  subst eq
  exact hd.recordsFor?_spec inside positive hv

omit hd in
theorem constraint_ok {premise : Scores} (len : premise.length = d.width)
    (numbered : premise.Numbered) {x : Nat × Score} (hx : x ∈ premise.constraints) :
    x.1 < d.width ∧ 0 < x.2.height := by
  have positive := (numbered.constraints_proper.allowed x hx).1
  refine ⟨?_, positive⟩
  have eq := numbered.constraints_proper.demand_of_mem hx
  by_contra outside
  rw [Scores.demand_constraints, Scores.demand, Scores.score_of_le (by omega),
    Score.height_zero] at eq
  omega

theorem rightsOf_eq {premise : Scores} (len : premise.length = d.width) (numbered : premise.Numbered)
    (left : Record) : d.rightsOf premise left =
      (List.range d.rightCount).filter fun r => premise.constraints.all fun x =>
        x.2.height ≤ (d.similarity x.1 left (d.rightRecord r)).height := by
  apply List.filter_congr
  intro r _
  rw [Bool.eq_iff_iff,
    Scores.satisfies_iff_forall_mem (by simp [len]) (hd.profile_numbered _ _) numbered,
    List.all_eq_true]
  apply forall₂_congr
  intro x hx
  rw [Scores.demand, d.score_profile _ _ (constraint_ok len numbered hx).1, decide_eq_true_iff]

end Sound

/-! ## Constraints by column -/

def allConstraints (c : ColumnConstraints) : Path := c.first.2 ++ c.others.flatMap (·.2)

section Columns

variable {premise : Scores} {c : ColumnConstraints} (hc : d.columnConstraints? premise = some c)

include hc

theorem columnConstraints_eq :
    groupBy (fun x : Nat × Score => (d.columnMatch x.1).left) premise.constraints =
      c.first :: c.others := by
  rw [columnConstraints?] at hc
  split at hc
  · nomatch hc
  · next first others eq =>
    obtain rfl := Option.some.inj hc
    exact eq

theorem mem_columnConstraints {g : Nat × Path} (hg : g ∈ c.first :: c.others) :
    g.2 ≠ [] ∧ ∀ x ∈ g.2, x ∈ premise.constraints ∧ (d.columnMatch x.1).left = g.1 := by
  obtain ⟨eq, some⟩ := (mem_groupBy_iff _).mp ((columnConstraints_eq hc).symm ▸ hg)
  refine ⟨some, fun x hx => ?_⟩
  rw [eq] at hx
  exact ⟨(List.mem_filter.mp hx).1, of_decide_eq_true (List.mem_filter.mp hx).2⟩

theorem mem_allConstraints_iff (x : Nat × Score) :
    x ∈ allConstraints c ↔ x ∈ premise.constraints := by
  have perm := flatMap_groupBy_perm (fun x : Nat × Score => (d.columnMatch x.1).left)
    premise.constraints
  rw [columnConstraints_eq hc, List.flatMap_cons] at perm
  exact perm.mem_iff

end Columns

theorem mem_keyGroups {columns : List Nat} {kinds : List Kind} {group : List Nat × List Kind}
    (h : group ∈ keyGroups columns kinds) :
    ∀ k ∈ group.2, k ∈ kinds ∧ group.1 = columns.map fun c => k.record.getD c 0 := by
  rw [keyGroups] at h
  split at h
  · next empty =>
    rw [List.mem_singleton] at h
    subst h
    intro k hk
    rw [List.isEmpty_iff.mp empty]
    exact ⟨hk, rfl⟩
  · obtain ⟨key, lefts⟩ := group
    obtain ⟨rfl, -⟩ := (mem_groupBy_iff _).mp h
    intro k hk
    obtain ⟨hk, eq⟩ := List.mem_filter.mp hk
    exact ⟨hk, (of_decide_eq_true eq).symm⟩

theorem keyGroup_ne_nil {columns : List Nat} {kinds : List Kind} {group : List Nat × List Kind}
    (some : kinds ≠ []) (h : group ∈ keyGroups columns kinds) : group.2 ≠ [] := by
  rw [keyGroups] at h
  split at h
  · rw [List.mem_singleton] at h
    subst h
    exact some
  · exact ((mem_groupBy_iff _).mp h).2

theorem flatMap_keyGroups_perm (columns : List Nat) (kinds : List Kind) :
    ((keyGroups columns kinds).flatMap (·.2)).Perm kinds := by
  rw [keyGroups]
  split
  · simp
  · exact flatMap_groupBy_perm _ kinds

namespace Sound

variable (hd : d.Sound) {premise : Scores} (len : premise.length = d.width)
  (numbered : premise.Numbered)

include hd len numbered

theorem recordSets?_of_kind {c : ColumnConstraints} (hc : d.columnConstraints? premise = some c)
    {k : Kind} (hk : k ∈ d.tables.left.kinds) {g : Nat × Path} (hg : g ∈ c.first :: c.others) :
    Answers (∃ x ∈ g.2, d.meeting k.record x = []) (g.2.map (d.meeting k.record))
      (d.recordSets? g.2 (k.record.getD g.1 0)) := by
  obtain ⟨some, here⟩ := mem_columnConstraints hc hg
  refine hd.recordSets?_spec (fun x hx => ?_) ?_
  · obtain ⟨inside, positive⟩ := constraint_ok len numbered (here x hx).1
    exact ⟨inside, positive, (here x hx).2⟩
  · obtain ⟨x, hx⟩ := List.exists_mem_of_ne_nil _ some
    rw [← (here x hx).2]
    exact Table.value_lt_of_kind hd.left hk
      (hd.columns _ (constraint_ok len numbered (here x hx).1).1).1

theorem rightsOf_eq_nil {left : Record} {x : Nat × Score} (hx : x ∈ premise.constraints)
    (none : d.meeting left x = []) : d.rightsOf premise left = [] := by
  rw [meeting, List.filter_eq_nil_iff] at none
  rw [hd.rightsOf_eq len numbered, List.filter_eq_nil_iff]
  intro r hr all
  exact none r hr (List.all_eq_true.mp all x hx)

theorem commonToAll_meeting {c : ColumnConstraints} (hc : d.columnConstraints? premise = some c)
    (left : Record) :
    commonToAll ((allConstraints c).map (d.meeting left)) = d.rightsOf premise left := by
  have some : allConstraints c ≠ [] := by
    have first := (mem_columnConstraints hc List.mem_cons_self).1
    simp [allConstraints, first]
  have common := commonToAll_filter d.rightCount (allConstraints c)
    (fun x r => x.2.height ≤ (d.similarity x.1 left (d.rightRecord r)).height) some
  refine common.trans
    ((List.filter_congr fun r _ => ?_).trans (hd.rightsOf_eq len numbered left).symm)
  rw [Bool.eq_iff_iff, List.all_eq_true, List.all_eq_true]
  exact forall_congr' fun x => by rw [mem_allConstraints_iff hc]

theorem pairGroup?_spec {c : ColumnConstraints} (hc : d.columnConstraints? premise = some c)
    {cluster : List Kind × Nat} (kinds : ∀ k ∈ cluster.1, k ∈ d.tables.left.kinds ∧
      k.record.getD c.first.1 0 = cluster.2) {sets : List (List Nat)}
    (found : d.recordSets? c.first.2 cluster.2 = some sets) {group : List Nat × List Kind}
    (hg : group ∈ keyGroups (c.others.map (·.1)) cluster.1) {k : Kind} (hk : k ∈ group.2) :
    d.pairGroup? c.others sets group =
      if d.rightsOf premise k.record = [] then none
      else some ⟨group.2, d.rightsOf premise k.record⟩ := by
  obtain ⟨inCluster, key⟩ := mem_keyGroups hg k hk
  obtain ⟨isKind, value⟩ := kinds k inCluster
  have first := hd.recordSets?_of_kind len numbered hc isKind List.mem_cons_self
  rw [value, found] at first
  have others := mapM_answers fun g (hg : g ∈ c.others) =>
    hd.recordSets?_of_kind len numbered hc isKind (List.mem_cons_of_mem _ hg)
  have zipped : c.others.zip group.1 = c.others.map fun g => (g, k.record.getD g.1 0) := by
    rw [key, List.map_map, List.zip_eq_zipWith, List.zipWith_map_right, List.zipWith_self]
    rfl
  rw [pairGroup?]
  simp only [zipped, List.mapM_map, Function.comp_def]
  cases answer : c.others.mapM fun g => d.recordSets? g.2 (k.record.getD g.1 0) with
  | none =>
    rw [answer] at others
    obtain ⟨g, hg, x, hx, empty⟩ := others
    have hx := ((mem_columnConstraints hc (List.mem_cons_of_mem _ hg)).2 x hx).1
    simp only [if_pos (hd.rightsOf_eq_nil len numbered hx empty)]
  | some rest =>
    rw [answer] at others
    have all : sets ++ rest.flatten = (allConstraints c).map (d.meeting k.record) := by
      rw [show sets = _ from first, show rest = _ from others, allConstraints, List.map_append,
        List.map_flatMap, List.flatMap_def]
    simp only [all, hd.commonToAll_meeting len numbered hc]
    cases d.rightsOf premise k.record <;> rfl

end Sound

theorem lefts_of_pairGroup? {others : List (Nat × Path)} {sets : List (List Nat)}
    {group : List Nat × List Kind} {g : PairGroup}
    (h : d.pairGroup? others sets group = some g) : g.lefts = group.2 := by
  rw [pairGroup?] at h
  simp only at h
  split at h
  · nomatch h
  · split at h
    · nomatch h
    · rw [← Option.some.inj h]

theorem rights_of_pairGroup? {others : List (Nat × Path)} {sets : List (List Nat)}
    {group : List Nat × List Kind} {g : PairGroup}
    (h : d.pairGroup? others sets group = some g) : g.rights ≠ [] := by
  rw [pairGroup?] at h
  simp only at h
  split at h
  · cases h
  · split at h
    · cases h
    · next filled =>
      rw [← Option.some.inj h]
      exact filled

theorem exists_of_mem_columnGroups {premise : Scores} {g : PairGroup}
    (hg : g ∈ d.columnGroups premise) : ∃ c cluster sets group,
      d.columnConstraints? premise = some c ∧ cluster ∈ d.leftClusters c.first.1 ∧
        d.recordSets? c.first.2 cluster.2 = some sets ∧
          group ∈ keyGroups (c.others.map (·.1)) cluster.1 ∧
            d.pairGroup? c.others sets group = some g := by
  rw [columnGroups] at hg
  cases hc : d.columnConstraints? premise with
  | none =>
    rw [hc] at hg
    exact absurd hg List.not_mem_nil
  | some c =>
    rw [hc] at hg
    obtain ⟨cluster, hcluster, hg⟩ := List.mem_flatMap.mp hg
    rw [groupsOfCluster] at hg
    cases found : d.recordSets? c.first.2 cluster.2 with
    | none =>
      rw [found] at hg
      exact absurd hg List.not_mem_nil
    | some sets =>
      rw [found] at hg
      obtain ⟨group, hgroup, answer⟩ := List.mem_filterMap.mp hg
      exact ⟨c, cluster, sets, group, rfl, hcluster, found, hgroup, answer⟩

/-! ## All groups -/

def groupPairs (g : PairGroup) : List (Nat × Nat) :=
  (Kind.numbers g.lefts).flatMap fun l => g.rights.map fun r => (l, r)

def kindPairs (d : Dataset) (premise : Scores) (k : Kind) : List (Nat × Nat) :=
  k.members.toList.flatMap fun l => (d.rightsOf premise k.record).map fun r => (l, r)

def satisfyingPairs (d : Dataset) (premise : Scores) : List (Nat × Nat) :=
  d.pairs.filter fun pair => (d.pairProfile pair).satisfies premise

theorem nodup_satisfyingPairs (d : Dataset) (premise : Scores) :
    (d.satisfyingPairs premise).Nodup := by
  refine List.Nodup.filter _ ?_
  rw [Dataset.pairs, List.nodup_flatMap]
  constructor
  · intro l _
    exact List.nodup_range.map fun a b same => (Prod.mk.inj same).2
  · refine List.nodup_range.imp fun {a b} differ => ?_
    intro pair ha hb
    obtain ⟨_, -, rfl⟩ := List.mem_map.mp ha
    obtain ⟨_, -, same⟩ := List.mem_map.mp hb
    exact differ (Prod.mk.inj same).1.symm

theorem length_groupPairs (g : PairGroup) : (groupPairs g).length = g.pairCount := by
  rw [groupPairs, List.length_flatMap]
  simp [PairGroup.pairCount, Kind.length_numbers]

theorem groupPairs_eq (d : Dataset) (premise : Scores) (lefts : List Kind) (rights : List Nat)
    (h : ∀ k ∈ lefts, d.rightsOf premise k.record = rights) :
    groupPairs ⟨lefts, rights⟩ = lefts.flatMap (d.kindPairs premise) := by
  rw [groupPairs, Kind.numbers, List.flatMap_assoc]
  apply List.flatMap_congr
  intro k hk
  rw [kindPairs, h k hk]

theorem kindPairs_eq_nil {premise : Scores} {k : Kind}
    (empty : d.rightsOf premise k.record = []) : d.kindPairs premise k = [] := by
  simp [kindPairs, empty]

theorem kindPairs_perm (d : Dataset) (premise : Scores) :
    (d.tables.left.kinds.flatMap (d.kindPairs premise)).Perm (d.satisfyingPairs premise) := by
  have pairs : d.satisfyingPairs premise = (List.range d.leftCount).flatMap fun l =>
      (d.rightsOf premise (d.leftRecord l)).map fun r => (l, r) := by
    rw [satisfyingPairs, Dataset.pairs, List.filter_flatMap]
    apply List.flatMap_congr
    intro l _
    rw [List.filter_map]
    rfl
  have kinds : d.tables.left.kinds.flatMap (d.kindPairs premise) =
      (Kind.numbers d.tables.left.kinds).flatMap fun l =>
        (d.rightsOf premise (d.leftRecord l)).map fun r => (l, r) := by
    rw [Kind.numbers, List.flatMap_assoc]
    refine List.flatMap_congr fun k hk => List.flatMap_congr fun l hl => ?_
    have record := ((Table.mem_members_of_kind hk l).mp (Array.mem_toList_iff.mp hl)).2
    rw [leftRecord, record]
  rw [pairs, kinds]
  exact (Table.numbers_kinds_perm _).flatMap_right _

namespace Sound

variable (hd : d.Sound) {premise : Scores} (len : premise.length = d.width)
  (numbered : premise.Numbered)

include hd len numbered

theorem first_column_lt {c : ColumnConstraints} (hc : d.columnConstraints? premise = some c) :
    c.first.1 < d.tables.left.columns.size := by
  have first := mem_columnConstraints hc List.mem_cons_self
  obtain ⟨x, hx⟩ := List.exists_mem_of_ne_nil _ first.1
  rw [← (first.2 x hx).2]
  exact (hd.columns _ (constraint_ok len numbered (first.2 x hx).1).1).1

theorem kinds_of_cluster {c : ColumnConstraints} (hc : d.columnConstraints? premise = some c)
    {cluster : List Kind × Nat} (h : cluster ∈ d.leftClusters c.first.1) :
    ∀ k ∈ cluster.1, k ∈ d.tables.left.kinds ∧ k.record.getD c.first.1 0 = cluster.2 := by
  rw [leftClusters, d.leftKinds_get, Table.kindClusters_eq (hd.first_column_lt len numbered hc)] at h
  obtain ⟨v, -, rfl⟩ := List.mem_map.mp h
  intro k hk
  exact ⟨(List.mem_filter.mp hk).1, of_decide_eq_true (List.mem_filter.mp hk).2⟩

theorem flatMap_pairGroup? {c : ColumnConstraints} (hc : d.columnConstraints? premise = some c)
    {cluster : List Kind × Nat} (kinds : ∀ k ∈ cluster.1, k ∈ d.tables.left.kinds ∧
      k.record.getD c.first.1 0 = cluster.2) {sets : List (List Nat)}
    (found : d.recordSets? c.first.2 cluster.2 = some sets) {group : List Nat × List Kind}
    (hg : group ∈ keyGroups (c.others.map (·.1)) cluster.1) :
    (d.pairGroup? c.others sets group).toList.flatMap groupPairs =
      group.2.flatMap (d.kindPairs premise) := by
  have spec := fun k hk => hd.pairGroup?_spec len numbered hc kinds found hg (k := k) hk
  cases answer : d.pairGroup? c.others sets group with
  | none =>
    symm
    apply List.flatMap_eq_nil_iff.mpr
    intro k hk
    have none := spec k hk
    rw [answer] at none
    split at none
    case isTrue empty => exact kindPairs_eq_nil empty
    case isFalse => nomatch none
  | some g =>
    obtain ⟨lefts, rights⟩ := g
    obtain rfl : lefts = group.2 := lefts_of_pairGroup? answer
    rw [Option.toList_some, List.flatMap_singleton]
    apply groupPairs_eq
    intro k hk
    have some := spec k hk
    rw [answer] at some
    split at some
    · nomatch some
    · exact (congrArg PairGroup.rights (Option.some.inj some)).symm

theorem groupsOfCluster_perm {c : ColumnConstraints} (hc : d.columnConstraints? premise = some c)
    {cluster : List Kind × Nat} (kinds : ∀ k ∈ cluster.1, k ∈ d.tables.left.kinds ∧
      k.record.getD c.first.1 0 = cluster.2) :
    ((d.groupsOfCluster c cluster).flatMap groupPairs).Perm
      (cluster.1.flatMap (d.kindPairs premise)) := by
  rw [groupsOfCluster]
  cases found : d.recordSets? c.first.2 cluster.2 with
  | none =>
    have nothing : cluster.1.flatMap (d.kindPairs premise) = [] := by
      rw [List.flatMap_eq_nil_iff]
      intro k hk
      have first := hd.recordSets?_of_kind len numbered hc (kinds k hk).1 List.mem_cons_self
      rw [(kinds k hk).2, found] at first
      obtain ⟨x, hx, empty⟩ := first
      have hx := ((mem_columnConstraints hc List.mem_cons_self).2 x hx).1
      exact kindPairs_eq_nil (hd.rightsOf_eq_nil len numbered hx empty)
    rw [nothing]
    exact .refl _
  | some sets =>
    have groups : ((keyGroups (c.others.map (·.1)) cluster.1).filterMap
        (d.pairGroup? c.others sets)).flatMap groupPairs =
          ((keyGroups (c.others.map (·.1)) cluster.1).flatMap (·.2)).flatMap
            (d.kindPairs premise) := by
      rw [List.flatMap_assoc, List.filterMap_eq_flatMap_toList, List.flatMap_assoc]
      apply List.flatMap_congr
      intro group hg
      exact hd.flatMap_pairGroup? len numbered hc kinds found hg
    simp only [groups]
    exact (flatMap_keyGroups_perm _ _).flatMap_right _

theorem mem_columnGroups {g : PairGroup} (hg : g ∈ d.columnGroups premise) :
    ∀ k ∈ g.lefts, k ∈ d.tables.left.kinds ∧ g.rights = d.rightsOf premise k.record := by
  obtain ⟨c, cluster, sets, group, hc, hcluster, found, hgroup, answer⟩ :=
    exists_of_mem_columnGroups hg
  have kinds := hd.kinds_of_cluster len numbered hc hcluster
  intro k hk
  rw [lefts_of_pairGroup? answer] at hk
  have spec := hd.pairGroup?_spec len numbered hc kinds found hgroup hk
  rw [answer] at spec
  split at spec
  · cases spec
  · exact ⟨(kinds k (mem_keyGroups hgroup k hk).1).1, by rw [Option.some.inj spec]⟩

theorem columnGroups_perm (some : premise.constraints ≠ []) :
    ((d.columnGroups premise).flatMap groupPairs).Perm (d.satisfyingPairs premise) := by
  rw [columnGroups]
  cases hc : d.columnConstraints? premise with
  | none =>
    exfalso
    rw [columnConstraints?] at hc
    split at hc
    · next eq =>
      have perm := flatMap_groupBy_perm (fun x : Nat × Score => (d.columnMatch x.1).left)
        premise.constraints
      rw [eq] at perm
      exact some (List.nil_perm.mp perm)
    · cases hc
  | some c =>
    have column := hd.first_column_lt len numbered hc
    have pairs := Table.flatMap_kindClusters_perm hd.left column (d.kindPairs premise)
    refine List.Perm.trans ?_ (pairs.trans (kindPairs_perm d premise))
    rw [List.flatMap_assoc, leftClusters, d.leftKinds_get]
    exact List.Perm.flatMap_left _ fun cluster hcluster =>
      hd.groupsOfCluster_perm len numbered hc (hd.kinds_of_cluster len numbered hc (by
        rwa [leftClusters, d.leftKinds_get]))

/-! ## A single constraint -/

omit len numbered in
theorem groupsOfCluster_single {x : Nat × Score} (hx : x.1 < d.width) (ht : 0 < x.2.height)
    {cluster : List Kind × Nat}
    (value : cluster.2 < (d.tables.left.column (d.columnMatch x.1).left).size) :
    d.groupsOfCluster ⟨((d.columnMatch x.1).left, [x]), []⟩ cluster =
      (d.similarGroup? x cluster).toList := by
  obtain ⟨m, t⟩ := x
  have sets : d.recordSets? [(m, t)] cluster.2 =
      ((d.comparison m).recordsFor? cluster.2 t).map fun records => [records] := by
    rw [recordSets?, List.mapM_cons, List.mapM_nil]
    dsimp only
    cases (d.comparison m).recordsFor? cluster.2 t <;> rfl
  rw [groupsOfCluster, similarGroup?, sets]
  cases found : (d.comparison m).recordsFor? cluster.2 t with
  | none => rfl
  | some records =>
    have filled := hd.recordsFor?_ne_nil hx ht value found
    obtain ⟨r, records, rfl⟩ := List.exists_cons_of_ne_nil filled
    simp [keyGroups, pairGroup?, commonToAll_singleton]

theorem satisfyingGroups_eq : d.satisfyingGroups premise = d.columnGroups premise := by
  rw [satisfyingGroups]
  split
  · next x single =>
    obtain ⟨hx, ht⟩ := constraint_ok len numbered (x := x) (by rw [single]; exact List.mem_cons_self)
    have columns : d.columnConstraints? premise =
        some ⟨((d.columnMatch x.1).left, [x]), []⟩ := by
      rw [columnConstraints?, single]
      rfl
    rw [columnGroups, columns, List.filterMap_eq_flatMap_toList]
    refine List.flatMap_congr fun cluster hcluster => ?_
    rw [leftClusters, d.leftKinds_get, Table.kindClusters_eq (hd.columns _ hx).1] at hcluster
    obtain ⟨v, hv, rfl⟩ := List.mem_map.mp hcluster
    exact (hd.groupsOfCluster_single hx ht (List.mem_range.mp hv)).symm
  · rfl

theorem mem_satisfyingGroups {g : PairGroup} (hg : g ∈ d.satisfyingGroups premise) :
    ∀ k ∈ g.lefts, k ∈ d.tables.left.kinds ∧ g.rights = d.rightsOf premise k.record := by
  rw [hd.satisfyingGroups_eq len numbered] at hg
  exact hd.mem_columnGroups len numbered hg

/-- The groups of a premise are its satisfying pairs. -/
theorem satisfyingGroups_perm (some : premise.constraints ≠ []) :
    ((d.satisfyingGroups premise).flatMap groupPairs).Perm (d.satisfyingPairs premise) := by
  rw [hd.satisfyingGroups_eq len numbered]
  exact hd.columnGroups_perm len numbered some

end Sound

end Dataset

end MatchingDependencies
