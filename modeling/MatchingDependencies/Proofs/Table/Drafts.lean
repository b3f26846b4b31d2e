import MatchingDependencies.Proofs.RowSource
import MatchingDependencies.Table

/-!
# Tables in the making

While rows are added to a table, each column numbers its fields as if they had
been numbered all at once, has a cluster for every number and enters in it the
records of the number. The records, the clusters and the numberings go on in
step, whatever rows are skipped in between.
-/

set_option autoImplicit false

namespace MatchingDependencies

open Delimited (Row)

/-! ## Numberings -/

namespace Numbering

def ofValues (values : List String) : Numbering := values.foldl add empty

theorem mem_numbers_add (n : Numbering) (v w : String) :
    w ∈ (n.add v).numbers ↔ w = v ∨ w ∈ n.numbers := by
  rw [add]
  split
  · next h =>
    constructor
    · exact .inr
    · rintro (rfl | h')
      · exact h
      · exact h'
  · rw [Std.HashMap.mem_insert, beq_iff_eq, eq_comm]

theorem mem_numbers_foldl (values : List String) (n : Numbering) (w : String) :
    w ∈ (values.foldl add n).numbers ↔ w ∈ n.numbers ∨ w ∈ values := by
  induction values generalizing n with
  | nil => simp
  | cons v values ih =>
    rw [List.foldl_cons, ih, mem_numbers_add, List.mem_cons]
    constructor
    · rintro ((h | h) | h)
      · exact .inr (.inl h)
      · exact .inl h
      · exact .inr (.inr h)
    · rintro (h | h | h)
      · exact .inl (.inr h)
      · exact .inl (.inl h)
      · exact .inr h

theorem mem_numbers_ofValues (values : List String) (w : String) :
    w ∈ (ofValues values).numbers ↔ w ∈ values := by
  rw [ofValues, mem_numbers_foldl]
  simp [empty]

theorem number_eq_of_getElem? {n : Numbering} {i : Nat} {v : String} (h : n.values[i]? = some v) :
    n.number v = i := by
  rw [number, Std.HashMap.getD_eq_getD_getElem?, (n.agree v i).mpr h]
  rfl

theorem getElem?_number {values : List String} {v : String} (h : v ∈ values) :
    (ofValues values).values[(ofValues values).number v]? = some v := by
  have mem := (mem_numbers_ofValues values v).mpr h
  obtain ⟨i, hi⟩ := Option.isSome_iff_exists.mp (Std.HashMap.isSome_getElem?_iff_mem.mpr mem)
  have found := ((ofValues values).agree v i).mp hi
  rwa [number_eq_of_getElem? found]

theorem number_lt {values : List String} {v : String} (h : v ∈ values) :
    (ofValues values).number v < (ofValues values).size :=
  (Array.getElem?_eq_some_iff.mp (getElem?_number h)).1

theorem ofValues_concat (values : List String) (v : String) :
    ofValues (values ++ [v]) = (ofValues values).add v := by
  rw [ofValues, List.foldl_append]
  rfl

variable {n : Numbering} {v w : String}

theorem number_add_of_mem (known : w ∈ n.numbers) : (n.add v).number w = n.number w := by
  obtain ⟨i, hi⟩ := Option.isSome_iff_exists.mp (Std.HashMap.isSome_getElem?_iff_mem.mpr known)
  have place := (n.agree w i).mp hi
  rw [number_eq_of_getElem? place, add]
  split
  · exact number_eq_of_getElem? place
  · have inside := (Array.getElem?_eq_some_iff.mp place).1
    apply number_eq_of_getElem?
    rw [Array.getElem?_push, if_neg (Nat.ne_of_lt inside), place]

theorem number_add_self (new : v ∉ n.numbers) : (n.add v).number v = n.size := by
  apply number_eq_of_getElem?
  rw [add, dif_neg new]
  exact Array.getElem?_push_size

theorem size_add (new : v ∉ n.numbers) : (n.add v).size = n.size + 1 := by
  rw [add, dif_neg new]
  exact Array.size_push v

theorem exists_number_eq {values : List String} {i : Nat} (h : i < (ofValues values).size) :
    ∃ v ∈ values, (ofValues values).number v = i := by
  have found : (ofValues values).values[i]? = some (ofValues values).values[i] :=
    Array.getElem?_eq_getElem h
  refine ⟨_, ?_, number_eq_of_getElem? found⟩
  rw [← mem_numbers_ofValues]
  exact Std.HashMap.isSome_getElem?_iff_mem.mp
    (by rw [((ofValues values).agree _ _).mpr found]; rfl)

end Numbering

def Numbering.places (n : Numbering) (values : List String) (id : Nat) : List Nat :=
  (List.range values.length).filter fun r => n.number (values.getD r "") = id

namespace Numbering

variable {n : Numbering} {values : List String} {v : String} {id : Nat}

theorem places_concat :
    n.places (values ++ [v]) id =
      n.places values id ++ if n.number v = id then [values.length] else [] := by
  have before : ∀ r ∈ List.range values.length,
      decide (n.number ((values ++ [v]).getD r "") = id) =
        decide (n.number (values.getD r "") = id) := by
    intro r hr
    rw [List.getD_eq_getElem?_getD, List.getElem?_append_left (List.mem_range.mp hr),
      List.getD_eq_getElem?_getD]
  rw [places, List.length_append, List.length_singleton, List.range_succ, List.filter_append,
    List.filter_congr before, places]
  simp [List.filter_cons]

theorem getD_mem {r : Nat} (hr : r ∈ List.range values.length) : values.getD r "" ∈ values := by
  have inside := List.mem_range.mp hr
  rw [List.getD_eq_getElem?_getD, List.getElem?_eq_getElem inside]
  exact List.getElem_mem inside

theorem places_of_size_le (beyond : (ofValues values).size ≤ id) :
    (ofValues values).places values id = [] := by
  rw [places, List.filter_eq_nil_iff]
  intro r hr
  have less := number_lt (getD_mem hr)
  rw [decide_eq_true_iff]
  omega

theorem places_add (known : ∀ w ∈ values, w ∈ n.numbers) :
    (n.add v).places values id = n.places values id := by
  apply List.filter_congr
  intro r hr
  rw [number_add_of_mem (known _ (getD_mem hr))]

end Numbering

/-! ## Columns in the making -/

namespace Column.Draft

/-- The draft of a column whose records have these values. -/
structure Holds (c : Draft) (values : List String) : Prop where
  numbering : c.numbering = Numbering.ofValues values
  size : c.clusters.size = (Numbering.ofValues values).size
  clusters : ∀ id, id < (Numbering.ofValues values).size →
    c.clusters[id]?.map Array.toList = some ((Numbering.ofValues values).places values id)

theorem holds_empty : empty.Holds [] := ⟨rfl, rfl, nofun⟩

variable {c : Draft} {values : List String}

/-- There is a cluster for every number, also for one that the next value takes. -/
theorem Holds.opened (h : c.Holds values) (v : String) :
    (opened c.clusters ((c.numbering.add v).number v)).size = (c.numbering.add v).size ∧
      ∀ id, id < (c.numbering.add v).size →
        (opened c.clusters ((c.numbering.add v).number v))[id]?.map Array.toList =
          some (c.numbering.places values id) := by
  rw [h.numbering]
  by_cases old : v ∈ (Numbering.ofValues values).numbers
  · have inside := Numbering.number_lt ((Numbering.mem_numbers_ofValues values v).mp old)
    rw [← h.size] at inside
    rw [show (Numbering.ofValues values).add v = Numbering.ofValues values from dif_pos old,
      Draft.opened, if_neg (Nat.ne_of_lt inside)]
    exact ⟨h.size, h.clusters⟩
  · rw [Numbering.number_add_self old, Draft.opened, if_pos h.size.symm, Array.size_push, h.size,
      Numbering.size_add old]
    refine ⟨rfl, fun id hid => ?_⟩
    rw [Array.getElem?_push, h.size]
    split
    · next last =>
      rw [Numbering.places_of_size_le (Nat.le_of_eq last.symm)]
      rfl
    · next other => exact h.clusters id (Nat.lt_of_le_of_ne (Nat.le_of_lt_succ hid) other)

theorem enter_eq (c : Draft) (record : Nat) (v : String) :
    c.enter record v = ((c.numbering.add v).number v, ⟨c.numbering.add v,
      (opened c.clusters ((c.numbering.add v).number v)).modify ((c.numbering.add v).number v)
        (·.push record)⟩) :=
  rfl

theorem Holds.enter (h : c.Holds values) (v : String) :
    (c.enter values.length v).1 = (Numbering.ofValues (values ++ [v])).number v ∧
      (c.enter values.length v).2.Holds (values ++ [v]) := by
  obtain ⟨size, clusters⟩ := h.opened v
  have numbering : Numbering.ofValues (values ++ [v]) = c.numbering.add v := by
    rw [Numbering.ofValues_concat, h.numbering]
  have known : ∀ w ∈ values, w ∈ c.numbering.numbers := by
    intro w hw
    rw [h.numbering]
    exact (Numbering.mem_numbers_ofValues values w).mpr hw
  rw [numbering, enter_eq]
  refine ⟨rfl, numbering.symm, ?_, ?_⟩
  · rw [numbering, Array.size_modify, size]
  · rw [numbering]
    intro id hid
    rw [Array.getElem?_modify, Numbering.places_concat, Numbering.places_add known]
    have cluster := clusters id hid
    split
    · obtain ⟨list, found, eq⟩ := Option.map_eq_some_iff.mp cluster
      rw [found, ← eq]
      simp
    · rw [cluster, List.append_nil]

end Column.Draft

/-! ## Tables in the making -/

namespace Table

def fieldsOf (rows : List Row) (c : Nat) : List String := rows.map (·.getD c "")

def numberOf (rows : List Row) (c : Nat) (row : Row) : Nat :=
  (Numbering.ofValues (fieldsOf rows c)).number (row.getD c "")

theorem fieldsOf_concat (rows : List Row) (row : Row) (c : Nat) :
    fieldsOf (rows ++ [row]) c = fieldsOf rows c ++ [row.getD c ""] := List.map_append

theorem numberOf_concat {rows : List Row} {row : Row} (known : row ∈ rows) (other : Row) (c : Nat) :
    numberOf (rows ++ [other]) c row = numberOf rows c row := by
  have mem := (Numbering.mem_numbers_ofValues (fieldsOf rows c) _).mpr (List.mem_map_of_mem known)
  rw [numberOf, fieldsOf_concat, Numbering.ofValues_concat, Numbering.number_add_of_mem mem,
    numberOf]

namespace Draft

/-- The draft of a table of rows that all have one field for every column. -/
structure Holds (t : Draft) (width : Nat) (rows : List Row) : Prop where
  length : t.columns.length = width
  columns : ∀ c (hc : c < t.columns.length), t.columns[c].Holds (fieldsOf rows c)
  records : t.records.toList =
    rows.map fun row => ((List.range width).map fun c => numberOf rows c row).toArray

theorem holds_empty (width : Nat) : (empty width).Holds width [] := by
  refine ⟨List.length_replicate, fun c hc => ?_, rfl⟩
  simp only [empty, List.getElem_replicate]
  exact Column.Draft.holds_empty

variable {t : Draft} {width : Nat} {rows : List Row} {row : Row}

theorem Holds.count (h : t.Holds width rows) : t.records.size = rows.length := by
  rw [← Array.length_toList, h.records, List.length_map]

theorem Holds.add (h : t.Holds width rows) (fits : row.length = width) :
    (t.add width row).Holds width (rows ++ [row]) := by
  let entered := row.zipWith (fun value c => c.enter t.records.size value) t.columns
  have eq : t.add width row =
      ⟨entered.map (·.2), t.records.push (entered.map (·.1)).toArray, t.skipped⟩ := if_pos fits
  have count : entered.length = width := by
    simp [entered, fits, h.length]
  -- Column by column, the field is numbered and its record entered.
  have entry : ∀ c (hc : c < entered.length), entered[c].1 = numberOf (rows ++ [row]) c row ∧
      entered[c].2.Holds (fieldsOf (rows ++ [row]) c) := by
    intro c hc
    have inside : c < t.columns.length := by rw [h.length]; omega
    have present : c < row.length := by omega
    have field : row[c] = row.getD c "" := by
      rw [List.getD_eq_getElem?_getD, List.getElem?_eq_getElem, Option.getD_some]
    have step := (h.columns c inside).enter (row.getD c "")
    have length : (fieldsOf rows c).length = t.records.size := by
      rw [h.count, fieldsOf, List.length_map]
    rw [length, ← fieldsOf_concat] at step
    simp only [entered, List.getElem_zipWith, field]
    exact step
  rw [eq]
  constructor
  · rw [List.length_map, count]
  · intro c hc
    rw [List.getElem_map]
    exact (entry c _).2
  · rw [Array.toList_push, h.records, List.map_append, List.map_singleton]
    congr 1
    · apply List.map_congr_left
      intro old known
      simp only [numberOf_concat known]
    · congr 2
      apply List.ext_getElem
      · simp [count]
      · intro c hc _
        simp only [List.getElem_map, List.getElem_range]
        exact (entry c _).1

theorem add_of_ne (misfits : row.length ≠ width) :
    t.add width row = { t with skipped := t.skipped + 1 } :=
  if_neg misfits

/-- What adding rows comes to: those that fit are held and the others are counted. -/
theorem holds_foldl (h : t.Holds width rows) (more : List Row) :
    (more.foldl (·.add width ·) t).Holds width
        (rows ++ more.filter fun row => row.length = width) ∧
      (more.foldl (·.add width ·) t).skipped =
        t.skipped + (more.filter fun row => row.length ≠ width).length := by
  induction more generalizing t rows with
  | nil => simpa using h
  | cons row more ih =>
    rw [List.foldl_cons]
    by_cases fits : row.length = width
    · have skipped : (t.add width row).skipped = t.skipped := by
        rw [Draft.add, if_pos fits]
      have := ih (h.add fits)
      simpa [fits, skipped] using this
    · rw [add_of_ne fits]
      have := ih (t := { t with skipped := t.skipped + 1 }) ⟨h.length, h.columns, h.records⟩
      simpa [fits, Nat.add_assoc, Nat.add_comm 1] using this

theorem addAll_eq_ok_iff {source : RowSource} {t' : Draft} : t.addAll width source = .ok t' ↔
    ∃ more, source.Delivers more ∧ t' = more.foldl (·.add width ·) t := by
  constructor
  · fun_induction addAll width t source with
    | case1 t source row s asked ih =>
      intro h
      obtain ⟨more, others, rfl⟩ := ih h
      exact ⟨row::more, .row asked others, rfl⟩
    | case2 t source s asked =>
      intro h
      exact ⟨[], .ends asked, (Except.ok.inj h).symm⟩
    | case3 t source e s asked => exact nofun
  · rintro ⟨more, delivers, rfl⟩
    induction delivers generalizing t with
    | ends asked =>
      rw [addAll]
      split <;> simp_all
    | row asked _ ih =>
      rw [addAll]
      split <;> simp_all

end Draft

end Table

end MatchingDependencies
