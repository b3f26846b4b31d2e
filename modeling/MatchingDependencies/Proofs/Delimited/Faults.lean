import Mathlib.Data.List.DropRight
import MatchingDependencies.Proofs.Delimited.Outcomes

/-!
# Fields that are no texts

A field that is no text fails one call. The record is not given up with it: the
next call goes on behind the field, and the fields there make up a row of their
own. So a record is answered as a whole, and once, if and only if no field in
front of its last one fails.
-/

set_option autoImplicit false

namespace MatchingDependencies.Delimited

def RawField.fault? (f : RawField) : Option InputError :=
  match f.text with
  | .ok _ => none
  | .error e => some e

/-- The fields behind the last one that is no text. -/
def unspoiled (record : RawRecord) : RawRecord := record.rtakeWhile fun f => f.IsText

/-- The row that is left of a record in the end. -/
def remnant (record : RawRecord) : List Outcome :=
  if unspoiled record = [] then [] else [(unspoiled record).mapM RawField.text]

/-! ## One record -/

theorem RawField.isText_of_text {f : RawField} {text : String} (read : f.text = .ok text) :
    f.IsText := by
  rw [IsText, read]
  rfl

theorem RawField.not_isText_of_text {f : RawField} {e : InputError} (read : f.text = .error e) :
    ¬f.IsText := by
  simp [IsText, read, Except.isOk, Except.toBool]

theorem remnant_of_texts {fields : RawRecord} {texts : Row}
    (read : fields.map RawField.text = texts.map .ok) :
    remnant fields = if texts = [] then [] else [.ok texts] := by
  have all : unspoiled fields = fields := by
    rw [unspoiled, List.rtakeWhile_eq_self_iff]
    intro f hf
    obtain ⟨text, -, same⟩ := List.mem_map.mp (read ▸ List.mem_map_of_mem hf)
    exact decide_eq_true (RawField.isText_of_text same.symm)
  have none : fields = [] ↔ texts = [] := by
    rw [← List.map_eq_nil_iff, read, List.map_eq_nil_iff]
  have whole : fields.mapM RawField.text = .ok texts :=
    calc fields.mapM RawField.text = (fields.map RawField.text).mapM id := by rw [List.mapM_map]; rfl
      _ = texts.mapM Except.ok := by rw [read, List.mapM_map]; rfl
      _ = .ok (texts.map id) := List.mapM_pure
      _ = .ok texts := by rw [List.map_id]
  simp only [remnant, all, whole, none]

theorem unspoiled_append_cons {f : RawField} (fails : ¬f.IsText) (seen fields : RawRecord) :
    unspoiled (seen ++ f::fields) = unspoiled fields := by
  rw [unspoiled, unspoiled, List.rtakeWhile, List.rtakeWhile, List.reverse_append,
    List.reverse_cons, List.append_assoc, List.takeWhile_append]
  split
  · next all => simp [fails, (List.takeWhile_prefix _).eq_of_length all]
  · rfl

theorem outcomesFrom_eq (seen : RawRecord) {row : Row}
    (read : seen.map RawField.text = row.reverse.map .ok) (record : RawRecord) :
    outcomesFrom row record =
      (record.filterMap RawField.fault?).map .error ++ remnant (seen ++ record) := by
  -- `seen` are the fields that `row` was read from; a fault starts both anew.
  induction record generalizing seen row with
  | nil =>
    rw [List.append_nil, remnant_of_texts read]
    cases row <;> simp [outcomesFrom]
  | cons f fields ih =>
    rw [outcomesFrom, List.filterMap_cons, RawField.fault?]
    cases first : f.text with
    | ok text =>
      have further : (seen ++ [f]).map RawField.text = (text::row).reverse.map .ok := by
        simp [read, first]
      simpa using ih _ further
    | error e =>
      have anew : remnant (seen ++ f::fields) = remnant fields := by
        rw [remnant, remnant, unspoiled_append_cons (RawField.not_isText_of_text first)]
      have rest : outcomesFrom [] fields = _ := ih [] rfl
      simp [anew, rest]

theorem outcomes_eq (record : RawRecord) :
    outcomes record = (record.filterMap RawField.fault?).map .error ++ remnant record :=
  outcomesFrom_eq [] rfl record

/-! ## A whole text -/

namespace Source

/-- A source of a text answers from what becomes of its records, one after the
other. Every field that is no text fails one call, and the fields behind the
last of them are left as a row. So all of a record comes in one answer if and
only if the fields in front of its last one are texts. -/
theorem session_faults (name : String) (delimiter : UInt8) (hasHeader : Bool)
    {bytes : List UInt8} (unmarked : ¬byteOrderMark <+: bytes) {pace : Nat → Nat → Nat}
    (flows : ∀ n, Flows bytes (pace n)) (calls : List Call) :
    session name delimiter hasHeader bytes pace calls =
      ((opening hasHeader ((records delimiter bytes).flatMap outcomes)).map fun start =>
        (start.1, (served start.2 start.2 calls).map fun answer => (answer, start.1))) ∧
    ∀ record ∈ records delimiter bytes,
      outcomes record = (record.filterMap RawField.fault?).map .error ++ remnant record ∧
      (outcomes record = [record.mapM RawField.text] ↔ ∀ field ∈ record.dropLast, field.IsText) := by
  constructor
  · exact session_eq name delimiter hasHeader unmarked flows calls
  · intro record hr
    have some : record ≠ [] := recordsFrom_inhabited delimiter .recordStart 1 [] bytes record hr
    exact ⟨outcomes_eq record, outcomes_whole_iff some⟩

/-- A header and three records of two fields. The last field of the second
record is no text, nor is the first field of the third. -/
def spoiledText : List UInt8 :=
  [0x61, 0x2C, 0x62, 0x0A, 0x31, 0x2C, 0x32, 0x0A, 0x33, 0x2C, 0xFF, 0x0A, 0xFF, 0x2C, 0x78]

theorem session_faults_spoiled :
    let pace : Nat → Nat → Nat := fun _ _ => 2
    let answers : List Answer := [.row (.ok (some ["1", "2"])),
      .row (.error (.invalidText 4 ⟨0, some 1⟩)), .found (.error (.invalidText 4 ⟨0, some 1⟩)),
      .row (.ok (some ["x"])), .found (.ok false)]
    ¬byteOrderMark <+: spoiledText ∧ (∀ n, Flows spoiledText (pace n)) ∧
      session "t" 0x2C true spoiledText pace [.next, .next, .hasNext, .next, .hasNext] =
        .ok (["a", "b"], answers.map fun answer => (answer, ["a", "b"])) ∧
      ∀ record ∈ records 0x2C spoiledText,
        outcomes record = (record.filterMap RawField.fault?).map .error ++ remnant record ∧
        (outcomes record = [record.mapM RawField.text] ↔
          ∀ field ∈ record.dropLast, field.IsText) := by
  intro pace answers
  have unmarked : ¬byteOrderMark <+: spoiledText := by decide
  have flows : ∀ n, Flows spoiledText (pace n) := fun _ _ _ => Nat.two_pos
  obtain ⟨asked, apart⟩ :=
    session_faults "t" 0x2C true unmarked flows [.next, .next, .hasNext, .next, .hasNext]
  refine ⟨unmarked, flows, ?_, apart⟩
  rw [asked]
  rfl

/-- A row is handed out that no record of the text has as its fields. -/
theorem session_spoiled :
    let pace : Nat → Nat → Nat := fun _ _ => 2
    ∃ answers, session "t" 0x2C true spoiledText pace [.next, .next, .next, .next] =
        .ok (["a", "b"], answers) ∧
      (.row (.ok (some ["x"])), ["a", "b"]) ∈ answers ∧
      ∀ record ∈ records 0x2C spoiledText, record.map RawField.text ≠ [.ok "x"] := by
  intro pace
  have unmarked : ¬byteOrderMark <+: spoiledText := by decide
  have flows : ∀ n, Flows spoiledText (pace n) := fun _ _ _ => Nat.two_pos
  rw [session_eq "t" 0x2C true unmarked flows]
  refine ⟨_, rfl, ?_, ?_⟩
  · exact .tail _ (.tail _ (.tail _ (.head _)))
  · have pairs : ∀ record ∈ records 0x2C spoiledText, record.length = 2 := by decide
    intro record hr same
    have single := congrArg List.length same
    rw [List.length_map, pairs record hr] at single
    exact absurd single (by decide)

end Source

end MatchingDependencies.Delimited
