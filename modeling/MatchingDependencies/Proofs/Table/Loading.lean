import Mathlib.Data.List.Induction
import Mathlib.Data.List.Nodup
import MatchingDependencies.Proofs.Ascending
import MatchingDependencies.Proofs.Table

/-!
# Loading loses nothing

A table gives back the rows that it was made of. The values of a column are
the texts of its fields, each of them once and in the order in which they
first appear, and the clusters name for each value exactly the records that
hold it.
-/

set_option autoImplicit false

namespace MatchingDependencies

open Delimited (Row)

/-! ## The order of the values -/

namespace Numbering

theorem nodup_values (n : Numbering) : n.values.toList.Nodup := by
  rw [List.nodup_iff_getElem?_ne_getElem?]
  intro i j lt inside same
  rw [Array.length_toList] at inside
  have found : n.values[j]? = some n.values[j] := Array.getElem?_eq_getElem inside
  have before : n.values[i]? = some n.values[j] := by
    rw [← Array.getElem?_toList, same, Array.getElem?_toList, found]
  have := number_eq_of_getElem? found
  have := number_eq_of_getElem? before
  omega

theorem values_ofValues (values : List String) :
    (ofValues values).values.toList = values.eraseDups := by
  induction values using List.reverseRecOn with
  | nil => rfl
  | append_singleton values v ih =>
    have known : v ∈ (ofValues values).numbers ↔ v ∈ values := mem_numbers_ofValues values v
    rw [ofValues_concat, List.eraseDups_append, add]
    by_cases old : v ∈ values
    · simp [known.mpr old, old, List.removeAll, ih]
    · simp [known.not.mpr old, old, List.removeAll, ih, List.eraseDups_cons]

end Numbering

namespace Table

def Clustered (t : Table) (c v : Nat) : Prop :=
  ∃ cluster, (t.column c).clusters[v]? = some cluster ∧ cluster ≠ [] ∧ cluster.Pairwise (· < ·) ∧
    ∀ r, r ∈ cluster ↔ ∃ record, t.records[r]? = some record ∧ record[c]? = some v

/-- A table holds rows: its records give them back, and its columns number the
values of their fields and tell where each of them stands. -/
structure Holds (t : Table) (rows : List Row) : Prop where
  decoded : t.records.toList.map t.decode = rows
  columns : t.columns.size = t.columnNames.length
  width : ∀ record ∈ t.records, record.size = t.columns.size
  values : ∀ c, c < t.columns.size → (t.column c).values.toList = (fieldsOf rows c).eraseDups
  distinct : ∀ c, c < t.columns.size → (t.column c).values.toList.Nodup
  size : ∀ c, c < t.columns.size → (t.column c).clusters.size = (t.column c).values.size
  clusters : ∀ c, c < t.columns.size → ∀ v, v < (t.column c).size → t.Clustered c v
  partition : ∀ c, c < t.columns.size →
    (t.column c).clusters.toList.flatten.Perm (List.range t.recordCount)

namespace Sound

variable {t : Table}

theorem valueAt_eq_iff (h : t.Sound) {c : Nat} (hc : c < t.columns.size) (r v : Nat) :
    (r < t.recordCount ∧ t.valueAt r c = v) ↔
      ∃ record, t.records[r]? = some record ∧ record[c]? = some v := by
  by_cases hr : r < t.recordCount
  · have found : t.records[r]? = some t.records[r] := Array.getElem?_eq_getElem hr
    have wide := h.width r hr
    rw [Array.getD_eq_getD_getElem?, found, Option.getD_some] at wide
    have inside : c < t.records[r].size := by omega
    simp [valueAt, Array.getD_eq_getD_getElem?, found, inside, hr]
  · have none : t.records[r]? = none := Array.getElem?_eq_none (by simpa [recordCount] using hr)
    simp [none, hr]

theorem clustered (h : t.Sound) {c : Nat} (hc : c < t.columns.size) {v : Nat}
    (hv : v < (t.column c).size) : t.Clustered c v := by
  refine ⟨_, h.clusters c hc v hv, ?_, List.pairwise_lt_range.filter _, fun r => ?_⟩
  · obtain ⟨r, hr, holds⟩ := h.occurs c hc v hv
    exact List.ne_nil_of_mem (List.mem_filter.mpr ⟨List.mem_range.mpr hr, by simpa using holds⟩)
  · rw [← h.valueAt_eq_iff hc, List.mem_filter, List.mem_range, decide_eq_true_iff]

theorem clusters_perm (h : t.Sound) {c : Nat} (hc : c < t.columns.size) :
    (t.column c).clusters.toList.flatten.Perm (List.range t.recordCount) := by
  have lists : (t.column c).clusters.toList = (List.range (t.column c).size).map fun v =>
      (List.range t.recordCount).filter fun r => t.valueAt r c = v := by
    apply List.ext_getElem?
    intro v
    rw [Array.getElem?_toList, List.getElem?_map]
    by_cases hv : v < (t.column c).size
    · rw [h.clusters c hc v hv, List.getElem?_range hv, Option.map_some]
    · rw [Array.getElem?_eq_none (by simpa [Column.size] using hv),
        List.getElem?_eq_none (by simpa using hv), Option.map_none]
  rw [lists, ← List.flatMap_def]
  apply perm_flatMap_filter (fun r => t.valueAt r c) _ List.nodup_range
  intro r hr
  exact List.mem_range.mpr (h.value_lt r (List.mem_range.mp hr) c hc)

end Sound

namespace Numbers

variable {t : Table} {rows : List Row} (h : t.Numbers rows)

include h

theorem decode_eq {r : Nat} (hr : r < rows.length) {record : Record}
    (found : t.records[r]? = some record) : t.decode record = rows[r] := by
  have fit := h.fit _ (List.getElem_mem hr)
  rw [h.record hr, Option.some.injEq] at found
  subst found
  apply List.ext_getElem
  · simp [decode, fit]
  · intro c hc _
    have inside : c < t.columns.size := by simpa [decode] using hc
    have column : t.columns[c] = t.column c := by
      simp [Table.column, Array.getD_eq_getD_getElem?, inside]
    have field : rows[r].getD c "" = rows[r][c] := by
      rw [List.getD_eq_getElem?_getD, List.getElem?_eq_getElem, Option.getD_some]
    simp only [decode, List.getElem_zipWith, List.getElem_map, List.getElem_range,
      Array.getElem_toList]
    rw [column, Column.value, h.values c inside, Array.getD_eq_getD_getElem?, numberOf,
      Numbering.getElem?_number (field_mem hr c), Option.getD_some, field]

theorem holds (names : t.columns.size = t.columnNames.length) (filled : rows ≠ []) :
    t.Holds rows := by
  have sound := h.sound filled
  constructor
  case decoded =>
    apply List.ext_getElem
    · rw [List.length_map, Array.length_toList, ← h.count, recordCount]
    · intro r hr inside
      rw [List.length_map, Array.length_toList] at hr
      rw [List.getElem_map, Array.getElem_toList]
      exact h.decode_eq inside (Array.getElem?_eq_getElem hr)
  case columns => exact names
  case width =>
    intro record hrecord
    obtain ⟨r, hr, rfl⟩ := Array.getElem_of_mem hrecord
    have := sound.width r hr
    simpa [hr] using this
  case values =>
    intro c hc
    rw [h.values c hc, Numbering.values_ofValues]
  case distinct =>
    intro c hc
    rw [h.values c hc]
    exact Numbering.nodup_values _
  case size => exact fun c hc => (sound.values c hc).symm
  case clusters => exact fun c hc v hv => sound.clustered hc hv
  case partition => exact fun c hc => sound.clusters_perm hc

end Numbers

/-- Loading keeps the rows that fit the columns, all of them in their order, and
counts the others. It fails if there is none that fits. -/
theorem load_lossless {source : RowSource} {rows : List Row} (h : source.Delivers rows) :
    (load source = .error (.emptyTable source.name) ↔
      ∀ row ∈ rows, row.length ≠ source.columns.length) ∧
    ((∃ row ∈ rows, row.length = source.columns.length) →
      ∃ t, load source = .ok t ∧ t.name = source.name ∧ t.columnNames = source.columns ∧
        t.skipped = (rows.filter fun row => row.length ≠ source.columns.length).length ∧
        t.Holds (rows.filter fun row => row.length = source.columns.length)) := by
  have empty : fitting source.columns.length rows = [] ↔
      ∀ row ∈ rows, row.length ≠ source.columns.length := by
    simp [fitting, List.filter_eq_nil_iff]
  rw [load_of_delivers h, ← empty]
  constructor
  · split <;> simp_all
  · rintro ⟨row, mem, fits⟩
    have filled : fitting source.columns.length rows ≠ [] :=
      empty.not.mpr fun none => none row mem fits
    rw [if_neg filled]
    have numbers := numbers_ofRows source.columns.length rows source.name source.columns
    refine ⟨_, rfl, rfl, rfl, skipped_ofRows _ rows, numbers.holds ?_ filled⟩
    rw [Draft.table, List.size_toArray, List.length_map]
    exact (holds_ofRows _ rows).length

/-- A row with a field too many is left out, and a value that comes again keeps
its number. -/
theorem load_lossless_repeated :
    let rows := [["x"], ["x", "y"], ["y"], ["x"]]
    let source := RowSource.ofRows "t" ["a"] rows
    source.Delivers rows ∧ ∃ t, load source = .ok t ∧ t.skipped = 1 ∧
      t.Holds [["x"], ["y"], ["x"]] := by
  intro rows source
  have delivers : source.Delivers rows := RowSource.delivers_listed _
  obtain ⟨t, loaded, -, -, skipped, holds⟩ :=
    (load_lossless delivers).2 ⟨["x"], by simp [rows], rfl⟩
  exact ⟨delivers, t, loaded, skipped, holds⟩

end Table

end MatchingDependencies
