import MatchingDependencies.Proofs.Table.Drafts

/-!
# Loaded tables

In a loaded table every record has one value for every column, every value of
a column is held by some record, and the clusters of a column say which records
hold which value.
-/

set_option autoImplicit false

namespace MatchingDependencies

open Delimited (Row)

namespace Table

def valueAt (t : Table) (r c : Nat) : Nat := (t.records.getD r #[]).getD c 0

structure Sound (t : Table) : Prop where
  nonempty : 0 < t.recordCount
  width : ∀ r, r < t.recordCount → (t.records.getD r #[]).size = t.columns.size
  value_lt : ∀ r, r < t.recordCount → ∀ c, c < t.columns.size →
    t.valueAt r c < (t.column c).size
  clusters : ∀ c, c < t.columns.size → ∀ v, v < (t.column c).size →
    (t.column c).clusters[v]? =
      some ((List.range t.recordCount).filter fun r => t.valueAt r c = v)
  occurs : ∀ c, c < t.columns.size → ∀ v, v < (t.column c).size →
    ∃ r, r < t.recordCount ∧ t.valueAt r c = v
  values : ∀ c, c < t.columns.size → (t.column c).values.size = (t.column c).size

/-- A table numbers the fields of rows, column by column, and enters each record in the
clusters of its values. -/
structure Numbers (t : Table) (rows : List Row) : Prop where
  fit : ∀ row ∈ rows, row.length = t.columns.size
  values : ∀ c, c < t.columns.size →
    (t.column c).values = (Numbering.ofValues (fieldsOf rows c)).values
  size : ∀ c, c < t.columns.size → (t.column c).size = (Numbering.ofValues (fieldsOf rows c)).size
  clusters : ∀ c, c < t.columns.size → ∀ v, v < (t.column c).size → (t.column c).clusters[v]? =
    some ((Numbering.ofValues (fieldsOf rows c)).places (fieldsOf rows c) v)
  records : t.records.toList =
    rows.map fun row => ((List.range t.columns.size).map fun c => numberOf rows c row).toArray

theorem Draft.Holds.numbers {t : Draft} {width : Nat} {rows : List Row} (h : t.Holds width rows)
    (fit : ∀ row ∈ rows, row.length = width) (name : String) (columnNames : Row) :
    (t.table name columnNames).Numbers rows := by
  have size : (t.table name columnNames).columns.size = width := by
    simp [Draft.table, h.length]
  have column : ∀ c (hc : c < t.columns.length),
      (t.table name columnNames).column c = t.columns[c].column := by
    intro c hc
    simp [Table.column, Draft.table, Array.getD_eq_getD_getElem?, hc]
  constructor
  · rwa [size]
  · intro c hc
    have inside : c < t.columns.length := by rw [h.length]; omega
    rw [column c inside, Column.Draft.column, (h.columns c inside).numbering]
  · intro c hc
    have inside : c < t.columns.length := by rw [h.length]; omega
    rw [column c inside, Column.size, Column.Draft.column, Array.size_map]
    exact (h.columns c inside).size
  · intro c hc v hv
    have inside : c < t.columns.length := by rw [h.length]; omega
    rw [column c inside, Column.size, Column.Draft.column, Array.size_map,
      (h.columns c inside).size] at hv
    rw [column c inside, Column.Draft.column, Array.getElem?_map]
    exact (h.columns c inside).clusters v hv
  · rw [size]
    exact h.records

namespace Numbers

variable {t : Table} {rows : List Row} (h : t.Numbers rows)

include h

theorem count : t.recordCount = rows.length := by
  rw [recordCount, ← Array.length_toList, h.records, List.length_map]

theorem record {r : Nat} (hr : r < rows.length) : t.records[r]? =
    some ((List.range t.columns.size).map fun c => numberOf rows c rows[r]).toArray := by
  rw [← Array.getElem?_toList, h.records, List.getElem?_map, List.getElem?_eq_getElem hr]
  rfl

theorem valueAt_eq {r c : Nat} (hr : r < rows.length) (hc : c < t.columns.size) :
    t.valueAt r c = numberOf rows c rows[r] := by
  simp [valueAt, Array.getD_eq_getD_getElem?, h.record hr, hc]

omit h in
theorem field_mem {r : Nat} (hr : r < rows.length) (c : Nat) :
    rows[r].getD c "" ∈ fieldsOf rows c :=
  List.mem_map_of_mem (List.getElem_mem hr)

theorem sound (filled : rows ≠ []) : t.Sound := by
  constructor
  · rw [h.count]
    exact List.length_pos_iff.mpr filled
  · intro r hr
    rw [h.count] at hr
    rw [Array.getD_eq_getD_getElem?, h.record hr]
    simp
  · intro r hr c hc
    rw [h.count] at hr
    rw [h.valueAt_eq hr hc, h.size c hc]
    exact Numbering.number_lt (field_mem hr c)
  · intro c hc v hv
    rw [h.clusters c hc v hv, Numbering.places, h.count, fieldsOf, List.length_map]
    apply congrArg
    apply List.filter_congr
    intro r hr
    have inside := List.mem_range.mp hr
    have field : (rows.map (·.getD c "")).getD r "" = rows[r].getD c "" := by
      rw [List.getD_eq_getElem?_getD, List.getElem?_map, List.getElem?_eq_getElem inside]
      rfl
    rw [h.valueAt_eq inside hc, numberOf, field, fieldsOf]
  · intro c hc v hv
    rw [h.size c hc] at hv
    obtain ⟨s, hs, eq⟩ := Numbering.exists_number_eq hv
    obtain ⟨row, mem, rfl⟩ := List.mem_map.mp hs
    obtain ⟨r, hr, rfl⟩ := List.getElem_of_mem mem
    exact ⟨r, h.count ▸ hr, (h.valueAt_eq hr hc).trans eq⟩
  · intro c hc
    rw [h.values c hc, h.size c hc]
    rfl

end Numbers

/-! ## Loading -/

def Draft.ofRows (width : Nat) (rows : List Row) : Draft :=
  rows.foldl (fun t row => t.add width row) (.empty width)

section Fitting

variable (width : Nat) (rows : List Row)

def fitting : List Row := rows.filter fun row => row.length = width

theorem holds_ofRows : (Draft.ofRows width rows).Holds width (fitting width rows) := by
  have held := (Draft.holds_foldl (Draft.holds_empty width) rows).1
  rwa [List.nil_append] at held

theorem skipped_ofRows : (Draft.ofRows width rows).skipped =
    (rows.filter fun row => row.length ≠ width).length := by
  have counted := (Draft.holds_foldl (Draft.holds_empty width) rows).2
  rwa [Draft.empty, Nat.zero_add] at counted

theorem isEmpty_ofRows :
    (Draft.ofRows width rows).records.isEmpty = true ↔ fitting width rows = [] := by
  have count := (holds_ofRows width rows).count
  rw [Array.isEmpty_iff_size_eq_zero, count, List.length_eq_zero_iff]

theorem numbers_ofRows (name : String) (columnNames : Row) :
    ((Draft.ofRows width rows).table name columnNames).Numbers (fitting width rows) := by
  refine (holds_ofRows width rows).numbers (fun row hr => ?_) name columnNames
  simpa using (List.mem_filter.mp hr).2

end Fitting

theorem exists_of_load {source : RowSource} {t : Table} (h : load source = .ok t) :
    ∃ rows, fitting source.columns.length rows ≠ [] ∧
      t = (Draft.ofRows source.columns.length rows).table source.name source.columns := by
  rw [load] at h
  split at h
  · nomatch h
  · nomatch h
  · split at h
    · nomatch h
    · next added =>
      obtain ⟨rows, -, rfl⟩ := Draft.addAll_eq_ok_iff.mp added
      split at h
      · nomatch h
      · next filled =>
        exact ⟨rows, mt (isEmpty_ofRows _ rows).mpr filled, (Except.ok.inj h).symm⟩

theorem sound_of_load {source : RowSource} {t : Table} (h : load source = .ok t) : t.Sound := by
  obtain ⟨rows, filled, rfl⟩ := exists_of_load h
  exact (numbers_ofRows _ rows _ _).sound filled

theorem load_of_delivers {source : RowSource} {rows : List Row} (h : source.Delivers rows) :
    load source =
      if fitting source.columns.length rows = [] then .error (.emptyTable source.name)
      else .ok ((Draft.ofRows source.columns.length rows).table source.name source.columns) := by
  obtain ⟨answer, others⟩ := h.hasNext_eq
  rcases asked : source.hasNext with ⟨found, s⟩
  rw [asked] at answer others
  cases rows with
  | nil => simp_all [load, fitting]
  | cons row rows =>
    have added : (Draft.empty source.columns.length).addAll source.columns.length s =
        .ok (Draft.ofRows source.columns.length (row::rows)) :=
      Draft.addAll_eq_ok_iff.mpr ⟨row::rows, others (List.cons_ne_nil _ _), rfl⟩
    obtain rfl : found = .ok true := answer
    simp only [load, asked, added, isEmpty_ofRows]

end Table

structure Tables.Loaded (t : Tables) : Prop where
  left : ∃ source, Table.load source = .ok t.left
  other : ∀ o, t.other = some o → ∃ source, Table.load source = .ok o

theorem Tables.Loaded.sound_left {t : Tables} (h : t.Loaded) : t.left.Sound := by
  obtain ⟨source, hs⟩ := h.left
  exact Table.sound_of_load hs

theorem Tables.Loaded.sound_right {t : Tables} (h : t.Loaded) : t.right.Sound := by
  rw [right]
  cases eq : t.other with
  | none => exact h.sound_left
  | some o =>
    obtain ⟨source, hs⟩ := h.other o eq
    exact Table.sound_of_load hs

end MatchingDependencies
