import MatchingDependencies.Proofs.Delimited.Arrival

/-!
# The records of a text

A text is cut into records and fields without regard to pieces, to failures or
to what the bytes of a field mean. A record is read field by field: a field that
is no text ends a row before it is whole, and the fields behind it are left for
the next row. `outcomes` lists what becomes of a record in this way.

So a record gives one row with all of its fields if they all are texts, and one
failure if only its last field is none. Every other field that is no text costs
the fields in front of it and gives the ones behind it to a row of their own.
-/

set_option autoImplicit false

namespace MatchingDependencies.Delimited

open Text

structure RawField where
  bytes : List UInt8
  line : Nat
  deriving DecidableEq, Repr

abbrev RawRecord := List RawField

namespace RawField

def text (f : RawField) : Except InputError String :=
  match decode f.bytes with
  | .ok text => .ok text
  | .error fault => .error (.invalidText f.line fault)

def IsText (f : RawField) : Prop := f.text.isOk = true

instance (f : RawField) : Decidable f.IsText := inferInstanceAs (Decidable (_ = true))

def inFront (f : RawField) : List RawRecord → List RawRecord
  | [] => [[f]]
  | record::records => (f::record) :: records

end RawField

/-- The records that are still to come at a place of the text, on a line, given
the bytes of the open field, last first. What is open at the end of the text
ends there. -/
def recordsFrom (delimiter : UInt8) :
    (place : Place) → (line : Nat) → (field : List UInt8) → List UInt8 → List RawRecord
  | place, line, field, [] => if place.isOpen then [[⟨field.reverse, line⟩]] else []
  | place, line, field, b::bytes =>
    let line := if b = lineFeed then line+1 else line
    match place.react delimiter b with
    | (place, .skip) => recordsFrom delimiter place line field bytes
    | (place, .byte c) => recordsFrom delimiter place line (c::field) bytes
    | (place, .fieldEnd) =>
      RawField.inFront ⟨field.reverse, line⟩ (recordsFrom delimiter place line [] bytes)
    | (place, .recordEnd) => [⟨field.reverse, line⟩] :: recordsFrom delimiter place line [] bytes

def records (delimiter : UInt8) (bytes : List UInt8) : List RawRecord :=
  recordsFrom delimiter .recordStart 1 [] bytes

abbrev Outcome := Except InputError Row

/-- What becomes of the rest of a record, given the fields of the row so far,
last first. -/
def outcomesFrom : Row → RawRecord → List Outcome
  | [], [] => []
  | text::row, [] => [.ok (text::row).reverse]
  | row, f::fields =>
    match f.text with
    | .ok text => outcomesFrom (text::row) fields
    | .error e => .error e :: outcomesFrom [] fields

def outcomes (record : RawRecord) : List Outcome := outcomesFrom [] record

def outcomesAfter (row : Row) : List RawRecord → List Outcome
  | [] => outcomesFrom row []
  | record::records => outcomesFrom row record ++ records.flatMap outcomes

theorem outcomesAfter_nil (records : List RawRecord) :
    outcomesAfter [] records = records.flatMap outcomes := by
  cases records <;> rfl

theorem outcomesAfter_inFront (row : Row) (f : RawField) (records : List RawRecord) :
    outcomesAfter row (f.inFront records) =
      match f.text with
      | .ok text => outcomesAfter (text::row) records
      | .error e => .error e :: outcomesAfter [] records := by
  cases records with
  | nil => cases read : f.text <;> simp [RawField.inFront, outcomesAfter, outcomesFrom, read]
  | cons record records =>
    cases read : f.text <;> simp [RawField.inFront, outcomesAfter, outcomesFrom, read]

theorem outcomesAfter_lone (row : Row) (f : RawField) (records : List RawRecord) :
    outcomesAfter row ([f]::records) =
      (f.text.map fun text => (text::row).reverse) :: outcomesAfter [] records := by
  rw [outcomesAfter_nil]
  cases read : f.text <;> simp [outcomesAfter, outcomesFrom, read, Except.map]

/-! ## Whole rows -/

theorem recordsFrom_inhabited (delimiter : UInt8) (place : Place) (line : Nat)
    (field bytes : List UInt8) :
    ∀ record ∈ recordsFrom delimiter place line field bytes, record ≠ [] := by
  induction bytes generalizing place line field with
  | nil =>
    intro record hr
    rw [recordsFrom] at hr
    split at hr <;> simp_all
  | cons b bytes ih =>
    intro record hr
    rw [recordsFrom] at hr
    split at hr
    · exact ih _ _ _ record hr
    · exact ih _ _ _ record hr
    · next place' eq =>
      generalize later : recordsFrom delimiter place' _ [] bytes = records at hr
      cases records with
      | nil => simp_all [RawField.inFront]
      | cons first others =>
        rcases List.mem_cons.mp hr with rfl | hr
        · simp
        · exact ih _ _ _ record (later ▸ List.mem_cons_of_mem _ hr)
    · rcases List.mem_cons.mp hr with rfl | hr
      · simp
      · exact ih _ _ _ record hr

theorem outcomesFrom_inhabited (row : Row) {record : RawRecord} (some : record ≠ []) :
    outcomesFrom row record ≠ [] := by
  induction record generalizing row with
  | nil => exact absurd rfl some
  | cons f fields ih =>
    rw [outcomesFrom]
    cases read : f.text with
    | error e => simp
    | ok text =>
      cases fields with
      | nil => simp [outcomesFrom]
      | cons g fields => exact ih (text::row) (by simp)

theorem outcomesFrom_whole_iff (row : Row) {record : RawRecord} (some : record ≠ []) :
    outcomesFrom row record = [(record.mapM RawField.text).map (row.reverse ++ ·)] ↔
      ∀ f ∈ record.dropLast, f.IsText := by
  induction record generalizing row with
  | nil => exact absurd rfl some
  | cons f fields ih =>
    cases fields with
    | nil =>
      cases read : f.text <;> simp [outcomesFrom, read, Except.map, bind, Except.bind, pure,
        Except.pure]
    | cons g fields =>
      have more : g::fields ≠ [] := by simp
      rw [outcomesFrom, List.mapM_cons, List.dropLast_cons_of_ne_nil more, List.forall_mem_cons]
      cases read : f.text with
      | error e =>
        have first : ¬f.IsText := by simp [RawField.IsText, read, Except.isOk, Except.toBool]
        simp [first, bind, Except.bind, Except.map, outcomesFrom_inhabited [] more]
      | ok text =>
        have first : f.IsText := by simp [RawField.IsText, read, Except.isOk, Except.toBool]
        simp only [first, true_and, ← ih (text::row) more]
        cases (g::fields).mapM RawField.text <;>
          simp [bind, Except.bind, Except.map, pure, Except.pure]

/-- A record is answered once, by all of its fields or by what is wrong with its
last one, if and only if all fields in front of the last are texts. -/
theorem outcomes_whole_iff {record : RawRecord} (some : record ≠ []) :
    outcomes record = [record.mapM RawField.text] ↔ ∀ f ∈ record.dropLast, f.IsText := by
  have whole := outcomesFrom_whole_iff [] some
  rw [outcomes]
  cases read : record.mapM RawField.text <;> simpa [read, Except.map] using whole

end MatchingDependencies.Delimited
