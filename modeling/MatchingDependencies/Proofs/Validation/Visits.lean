import MatchingDependencies.Proofs.Dataset.Groups
import MatchingDependencies.Proofs.Discovery.Outcome
import MatchingDependencies.Proofs.Stopping

/-!
# Every satisfying pair is visited once

Who visits the groups of a premise and always goes on sees every record pair
that satisfies the premise in one group, and no other pair in any. This holds
for any data that can be built, whatever the measures answer, with one
constraint or several, and with columns that stand in several column matches.
-/

set_option autoImplicit false

namespace MatchingDependencies

open MatchingDependencies.Discovery (namesakes namesakes_loaded namesakeMatches namesakeData
  build_namesakes)

def PairGroup.leftRecords (g : PairGroup) : List Nat := (Kind.records g.lefts).map (·.1)

theorem countP_mem_of_nodup {α β : Type} [DecidableEq β] (f : α → List β) {as : List α}
    (distinct : (as.flatMap f).Nodup) (b : β) :
    as.countP (fun a => b ∈ f a) = if b ∈ as.flatMap f then 1 else 0 := by
  induction as with
  | nil => rfl
  | cons a as ih =>
    rw [List.flatMap_cons, List.nodup_append] at distinct
    obtain ⟨-, rest, apart⟩ := distinct
    rw [List.countP_cons, ih rest, List.flatMap_cons]
    by_cases here : b ∈ f a
    · have later : b ∉ as.flatMap f := fun hb => apart b here b hb rfl
      simp [here, later]
    · simp [here]

theorem map_sublist_flatMap {α β : Type} {f : α → β} {g : α → List β} (as : List α)
    (h : ∀ a ∈ as, f a ∈ g a) : (as.map f).Sublist (as.flatMap g) := by
  induction as with
  | nil => exact List.nil_sublist _
  | cons a as ih =>
    have rest := ih fun b hb => h b (List.mem_cons_of_mem _ hb)
    have first := List.singleton_sublist.mpr (h a List.mem_cons_self)
    exact first.append rest

namespace Kind

theorem records_perm (kinds : List Kind) : ((records kinds).map (·.1)).Perm (numbers kinds) := by
  rw [records]
  refine ((mergeAll_perm _).map _).trans (.of_eq ?_)
  rw [numbers, ← List.flatMap_def, List.map_flatMap]
  simp [Function.comp_def]

theorem records_sorted {t : Table} {kinds : List Kind} (h : ∀ k ∈ kinds, k ∈ t.kinds)
    (distinct : (numbers kinds).Nodup) :
    ((records kinds).map (·.1)).Pairwise (· < ·) := by
  have sorted : (records kinds).Pairwise fun a b => decide (a.1 ≤ b.1) = true := by
    refine mergeAll_sorted ?_ ?_ _ fun l hl => ?_
    · intro a b c hab hbc
      exact decide_eq_true (Nat.le_trans (of_decide_eq_true hab) (of_decide_eq_true hbc))
    · intro a b
      rw [Bool.or_eq_true, decide_eq_true_iff, decide_eq_true_iff]
      exact Nat.le_total a.1 b.1
    · obtain ⟨k, hk, rfl⟩ := List.mem_map.mp hl
      rw [List.pairwise_map]
      exact (Table.members_sorted (h k hk)).imp fun lt => decide_eq_true (Nat.le_of_lt lt)
  have differ := List.nodup_iff_pairwise_ne.mp ((records_perm kinds).nodup_iff.mpr distinct)
  rw [List.pairwise_map] at differ ⊢
  exact (sorted.and differ).imp fun ⟨le, ne⟩ => Nat.lt_of_le_of_ne (of_decide_eq_true le) ne

end Kind

namespace Dataset

/-- Who always goes on is shown these groups: a pair that satisfies the premise
is in one of them, any other in none. The left records of a group agree in the
columns of the premise, and its records are listed in increasing order. -/
structure Visited (d : Dataset) (premise : Scores) (groups : List PairGroup) : Prop where
  shown : ∀ {σ : Type} (isFinal : σ → Bool) (visit : σ → PairGroup → σ) (s : σ),
    (∀ s, isFinal s = false) → d.visitGroups premise isFinal visit s = groups.foldl visit s
  once : ∀ l r, groups.countP (fun g => l ∈ g.leftRecords ∧ r ∈ g.rights) =
    if l < d.leftCount ∧ r < d.rightCount ∧ (d.pairProfile (l, r)).satisfies premise = true
    then 1 else 0
  agree : ∀ g ∈ groups, ∀ l ∈ g.leftRecords, ∀ k ∈ g.leftRecords, ∀ x ∈ premise.constraints,
    (d.leftRecord l).getD (d.columnMatch x.1).left 0 =
      (d.leftRecord k).getD (d.columnMatch x.1).left 0
  filled : ∀ g ∈ groups, g.leftRecords ≠ [] ∧ g.rights ≠ []
  sorted : ∀ g ∈ groups, g.leftRecords.Pairwise (· < ·) ∧ g.rights.Pairwise (· < ·)

variable {d : Dataset} {premise : Scores}

theorem mem_leftRecords_iff {g : PairGroup} (kinds : ∀ k ∈ g.lefts, k ∈ d.tables.left.kinds)
    (l : Nat) : l ∈ g.leftRecords ↔ l < d.leftCount ∧ ∃ k ∈ g.lefts, d.leftRecord l = k.record := by
  rw [PairGroup.leftRecords, (Kind.records_perm g.lefts).mem_iff, Kind.numbers, List.mem_flatMap]
  simp only [Array.mem_toList_iff]
  constructor
  · rintro ⟨k, hk, member⟩
    obtain ⟨inside, record⟩ := (Table.mem_members_of_kind (kinds k hk) l).mp member
    exact ⟨inside, k, hk, record⟩
  · rintro ⟨inside, k, hk, record⟩
    exact ⟨k, hk, (Table.mem_members_of_kind (kinds k hk) l).mpr ⟨inside, record⟩⟩

theorem mem_groupPairs_iff (g : PairGroup) (l r : Nat) :
    (l, r) ∈ groupPairs g ↔ l ∈ g.leftRecords ∧ r ∈ g.rights := by
  rw [PairGroup.leftRecords, (Kind.records_perm g.lefts).mem_iff, groupPairs, List.mem_flatMap]
  simp

theorem mem_satisfyingPairs_iff (l r : Nat) : (l, r) ∈ d.satisfyingPairs premise ↔
    l < d.leftCount ∧ r < d.rightCount ∧ (d.pairProfile (l, r)).satisfies premise = true := by
  rw [satisfyingPairs, List.mem_filter, mem_pairs_iff, and_assoc]

namespace Sound

variable (hd : d.Sound) (len : premise.length = d.width) (numbered : premise.Numbered)

include hd len numbered

theorem cluster_ne_nil {c : ColumnConstraints} (hc : d.columnConstraints? premise = some c)
    {cluster : List Kind × Nat} (h : cluster ∈ d.leftClusters c.first.1) : cluster.1 ≠ [] := by
  have column := hd.first_column_lt len numbered hc
  rw [leftClusters, d.leftKinds_get, Table.kindClusters_eq column] at h
  obtain ⟨v, hv, rfl⟩ := List.mem_map.mp h
  obtain ⟨r, inside, value⟩ := hd.left.occurs _ column v (List.mem_range.mp hv)
  obtain ⟨k, hk, record⟩ := Table.exists_kind inside
  refine List.ne_nil_of_mem (a := k) (List.mem_filter.mpr ⟨hk, decide_eq_true ?_⟩)
  rw [record]
  exact value

theorem kinds_of_group {g : PairGroup} (hg : g ∈ d.satisfyingGroups premise) :
    g.lefts ≠ [] ∧ g.rights ≠ [] ∧ ∀ k ∈ g.lefts, ∀ k' ∈ g.lefts, ∀ x ∈ premise.constraints,
      k.record.getD (d.columnMatch x.1).left 0 = k'.record.getD (d.columnMatch x.1).left 0 := by
  rw [hd.satisfyingGroups_eq len numbered] at hg
  obtain ⟨c, cluster, sets, group, hc, hcluster, -, hgroup, answer⟩ :=
    exists_of_mem_columnGroups hg
  rw [lefts_of_pairGroup? answer]
  refine ⟨keyGroup_ne_nil (hd.cluster_ne_nil len numbered hc hcluster) hgroup,
    rights_of_pairGroup? answer, fun k hk k' hk' x hx => ?_⟩
  obtain ⟨inCluster, key⟩ := mem_keyGroups hgroup k hk
  obtain ⟨inCluster', key'⟩ := mem_keyGroups hgroup k' hk'
  have kinds := hd.kinds_of_cluster len numbered hc hcluster
  rcases List.mem_append.mp ((mem_allConstraints_iff hc x).mpr hx) with first | other
  · rw [((mem_columnConstraints hc List.mem_cons_self).2 x first).2, (kinds k inCluster).2,
      (kinds k' inCluster').2]
  · obtain ⟨column, hcolumn, other⟩ := List.mem_flatMap.mp other
    rw [((mem_columnConstraints hc (List.mem_cons_of_mem _ hcolumn)).2 x other).2]
    exact List.map_inj_left.mp (key.symm.trans key') _ (List.mem_map_of_mem hcolumn)

theorem visited (constrained : premise.constraints ≠ []) :
    d.Visited premise (d.satisfyingGroups premise) := by
  have pairs := hd.satisfyingGroups_perm len numbered constrained
  have distinct := pairs.nodup_iff.mpr (d.nodup_satisfyingPairs premise)
  have known := fun g hg => hd.mem_satisfyingGroups len numbered (g := g) hg
  have held := fun g hg => hd.kinds_of_group len numbered (g := g) hg
  constructor
  · intro σ isFinal visit s goesOn
    rw [d.visitGroups_eq_foldUntil]
    exact foldUntil_eq_foldl goesOn _ s
  · intro l r
    have count := countP_mem_of_nodup groupPairs distinct (l, r)
    simp only [mem_groupPairs_iff, pairs.mem_iff, mem_satisfyingPairs_iff] at count
    exact count
  · intro g hg l hl k hk x hx
    have kinds := fun k hk => (known g hg k hk).1
    obtain ⟨-, k₁, hk₁, left⟩ := (mem_leftRecords_iff kinds l).mp hl
    obtain ⟨-, k₂, hk₂, other⟩ := (mem_leftRecords_iff kinds k).mp hk
    rw [left, other]
    exact (held g hg).2.2 k₁ hk₁ k₂ hk₂ x hx
  · intro g hg
    obtain ⟨k, hk⟩ := List.exists_mem_of_ne_nil _ (held g hg).1
    obtain ⟨l, inside, record⟩ := Table.exists_member (known g hg k hk).1
    have mem := (mem_leftRecords_iff (fun k hk => (known g hg k hk).1) l).mpr
      ⟨inside, k, hk, record⟩
    exact ⟨List.ne_nil_of_mem mem, (held g hg).2.1⟩
  · intro g hg
    -- The pairs of a group are distinct, so its left records are, along one right record.
    obtain ⟨r, hr⟩ := List.exists_mem_of_ne_nil _ (held g hg).2.1
    obtain ⟨k, hk⟩ := List.exists_mem_of_ne_nil _ (held g hg).1
    have within := (List.nodup_flatMap.mp distinct).1 g hg
    have column := map_sublist_flatMap (f := fun l => (l, r)) (Kind.numbers g.lefts)
      fun l _ => List.mem_map_of_mem hr
    have numbers := List.Nodup.of_map _ (within.sublist column)
    refine ⟨Kind.records_sorted (fun k hk => (known g hg k hk).1) numbers, ?_⟩
    rw [(known g hg k hk).2]
    exact List.pairwise_lt_range.filter _

end Sound

/-- Whatever data are built, and whichever columns a premise looks at, every
pair that satisfies it is visited once. -/
theorem visited_of_build {tables : Tables} (loaded : tables.Loaded)
    {columnMatches : List (Nat × Nat × Measure)} {nullEqualsNull : Bool}
    (data : build tables columnMatches nullEqualsNull = .ok d) (hp : premise.IsPremise d.width)
    (constrained : premise.constraints ≠ []) :
    d.Visited premise (d.visitGroups premise (fun _ => false) (fun seen g => seen ++ [g]) []) := by
  have visited := (sound_of_build loaded data).visited hp.length hp.numbered constrained
  have listed := visited.shown (fun _ => false) (fun seen g => seen ++ [g]) [] fun _ => rfl
  rw [List.foldl_append_eq_append, List.nil_append, ← List.flatMap_def,
    List.flatMap_singleton'] at listed
  rw [listed]
  exact visited

theorem visited_of_build_namesakes :
    Tables.Loaded ⟨namesakes, none⟩ ∧
      build ⟨namesakes, none⟩ namesakeMatches true = .ok namesakeData ∧
      Scores.IsPremise namesakeData.width [1, 1] ∧ Scores.constraints [1, 1] ≠ [] ∧
      namesakeData.Visited [1, 1]
        (namesakeData.visitGroups [1, 1] (fun _ => false) (fun seen g => seen ++ [g]) []) ∧
      namesakeData.satisfyingPairs [1, 1] = [(0, 0), (1, 1)] := by
  have premise : Scores.IsPremise namesakeData.width [1, 1] := by decide
  have constrained : Scores.constraints [1, 1] ≠ [] := by decide
  exact ⟨namesakes_loaded, build_namesakes, premise, constrained,
    visited_of_build namesakes_loaded build_namesakes premise constrained,
    by with_unfolding_all rfl⟩

end Dataset

end MatchingDependencies
