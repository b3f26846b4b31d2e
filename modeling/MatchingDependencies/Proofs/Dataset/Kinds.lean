import MatchingDependencies.Kind
import MatchingDependencies.Proofs.Ascending
import MatchingDependencies.Proofs.Table

/-!
# Kinds and their records

The members of all kinds are the records of the table, each of them once, and
every member holds the values of its kind. The clusters of a column divide the
kinds by value.
-/

set_option autoImplicit false

namespace MatchingDependencies

namespace Kind

def numbers (kinds : List Kind) : List Nat := kinds.flatMap fun k => k.members.toList

theorem length_numbers (kinds : List Kind) : (numbers kinds).length = recordCount kinds := by
  induction kinds with
  | nil => rfl
  | cons k kinds ih =>
    rw [recordCount, sumOver_cons] at *
    rw [← ih]
    simp [numbers]

end Kind

namespace Table

variable {t : Table}

theorem mem_members_of_kind {k : Kind} (hk : k ∈ t.kinds) (r : Nat) :
    r ∈ k.members ↔ r < t.recordCount ∧ t.records.getD r #[] = k.record := by
  obtain ⟨⟨record, members⟩, hg, rfl⟩ := List.mem_map.mp hk
  obtain ⟨rfl, -⟩ := (mem_groupBy_iff _).mp hg
  simp [List.mem_filter]

theorem members_sorted {k : Kind} (hk : k ∈ t.kinds) : k.members.toList.Pairwise (· < ·) := by
  obtain ⟨⟨record, members⟩, hg, rfl⟩ := List.mem_map.mp hk
  obtain ⟨rfl, -⟩ := (mem_groupBy_iff _).mp hg
  exact List.pairwise_lt_range.filter _

theorem exists_member {k : Kind} (hk : k ∈ t.kinds) :
    ∃ r, r < t.recordCount ∧ t.records.getD r #[] = k.record := by
  obtain ⟨⟨record, members⟩, hg, rfl⟩ := List.mem_map.mp hk
  obtain ⟨rfl, some⟩ := (mem_groupBy_iff _).mp hg
  obtain ⟨r, hr⟩ := List.exists_mem_of_ne_nil _ some
  obtain ⟨inside, eq⟩ := List.mem_filter.mp hr
  exact ⟨r, List.mem_range.mp inside, of_decide_eq_true eq⟩

theorem exists_kind {r : Nat} (hr : r < t.recordCount) :
    ∃ k ∈ t.kinds, k.record = t.records.getD r #[] := by
  have key := key_mem_groupBy (fun r => t.records.getD r #[]) (List.mem_range.mpr hr)
  obtain ⟨⟨record, members⟩, hg, same⟩ := List.mem_map.mp key
  exact ⟨_, List.mem_map_of_mem hg, same⟩

theorem numbers_kinds_perm (t : Table) :
    (Kind.numbers t.kinds).Perm (List.range t.recordCount) := by
  have groups : Kind.numbers t.kinds =
      (groupBy (fun r => t.records.getD r #[]) (List.range t.recordCount)).flatMap (·.2) := by
    rw [Kind.numbers, kinds, List.flatMap_map]
  rw [groups]
  exact flatMap_groupBy_perm _ _

theorem value_lt_of_kind (ht : t.Sound) {k : Kind} (hk : k ∈ t.kinds) {c : Nat}
    (hc : c < t.columns.size) : k.record.getD c 0 < (t.column c).size := by
  obtain ⟨r, hr, eq⟩ := exists_member hk
  rw [← eq]
  exact ht.value_lt r hr c hc

theorem kindClusters_eq {c : Nat} (hc : c < t.columns.size) :
    ((t.kindClusters.getD c #[]).toList).zipIdx =
      (List.range (t.column c).size).map fun v =>
        (t.kinds.filter fun k => k.record.getD c 0 = v, v) := by
  have column : t.columns[c] = t.column c := by simp [Table.column, hc]
  have clusters : t.kindClusters.getD c #[] =
      byNumber (t.column c).size (t.kinds.map fun k => (k.record.getD c 0, k)) := by
    simp [kindClusters, hc, column]
  rw [clusters]
  apply List.ext_getElem?
  intro v
  rw [List.getElem?_zipIdx, List.getElem?_map, Array.getElem?_toList]
  by_cases hv : v < (t.column c).size
  · rw [getElem?_byNumber _ _ hv, List.getElem?_range hv, List.filter_map, List.map_map]
    simp [Function.comp_def]
  · rw [Array.getElem?_eq_none (by simpa using hv), List.getElem?_eq_none (by simpa using hv)]
    rfl

theorem flatMap_kindClusters_perm {α : Type} (ht : t.Sound) {c : Nat} (hc : c < t.columns.size)
    (f : Kind → List α) :
    (((t.kindClusters.getD c #[]).toList.zipIdx).flatMap fun x => x.1.flatMap f).Perm
      (t.kinds.flatMap f) := by
  rw [kindClusters_eq hc, List.flatMap_map, ← List.flatMap_assoc]
  apply List.Perm.flatMap_right f
  exact perm_flatMap_filter (fun k : Kind => k.record.getD c 0) _ List.nodup_range _
    fun k hk => List.mem_range.mpr (value_lt_of_kind ht hk hc)

end Table

end MatchingDependencies
