import MatchingDependencies.Proofs.Delimited.Calls

/-!
# Setting a source back

What a source is made from stays with it through every call, and reading the
header starts from that alone. So a source that is set back is the source that
was opened, wherever it stood: inside a record, at the end of the text, or
behind a call that failed.

A call that asks whether there is a row reads it at most once, and the next call
for a row answers as if nobody had asked.
-/

set_option autoImplicit false

namespace MatchingDependencies.Delimited

namespace Source

variable {s t : Source} {columns : Row} {peeked : Option Row}

def pristine (s : Source) : Source := unopened s.name s.delimiter s.hasHeader s.supply

/-! ## What stays -/

theorem consume_pristine {b : UInt8} {rest : List UInt8} {e : Event}
    (h : s.consume b rest = (e, t)) : t.pristine = s.pristine := by
  rw [← (Prod.mk.inj h).2]
  rfl

theorem refill_pristine (h : s.refill? = some t) : t.pristine = s.pristine := by
  obtain ⟨-, rfl⟩ := refill_eq_some_iff.mp h
  rfl

theorem finish_pristine (s : Source) (row : Row) (field : List UInt8) :
    (s.finish row field).2.pristine = s.pristine := by
  unfold finish
  split <;> rfl

theorem readOn_pristine (s : Source) (row : Row) (field : List UInt8) :
    (s.readOn row field).2.pristine = s.pristine := by
  fun_induction readOn s row field with
  | case1 s row field b rest hs t hc ih => exact ih.trans (consume_pristine hc)
  | case2 s row field b rest hs c t hc ih => exact ih.trans (consume_pristine hc)
  | case3 s row field b rest hs t hc row' hw ih => exact ih.trans (consume_pristine hc)
  | case4 s row field b rest hs t hc => exact consume_pristine hc
  | case5 s row field b rest hs t hc => exact consume_pristine hc
  | case6 s row field => exact finish_pristine s row field
  | case7 => rfl
  | case8 s row field hs he t hr => exact (finish_pristine t row field).trans (refill_pristine hr)
  | case9 s row field hs he t hr hw ih => exact ih.trans (refill_pristine hr)

theorem readRow_pristine (s : Source) : s.readRow.2.pristine = s.pristine := by
  unfold readRow
  split
  · rfl
  · exact readOn_pristine s [] []

theorem readHeader_pristine (s : Source) : s.readHeader.2.pristine = s.pristine := by
  have first := s.readRow_pristine
  rw [readHeader_eq]
  generalize s.readRow = answer at first ⊢
  obtain ⟨e | names, t⟩ := answer
  · exact first
  · by_cases header : t.hasHeader = true
    · have second := (t.headed (names.getD []) none).readRow_pristine
      simp only [header, if_true]
      generalize (t.headed (names.getD []) none).readRow = answer at second ⊢
      obtain ⟨e | peeked, u⟩ := answer
      · exact second.trans first
      · exact second.trans first
    · simp only [header]
      exact first

theorem ask_pristine (s : Source) (call : Call) : (s.ask call).2.pristine = s.pristine := by
  have read := s.readRow_pristine
  cases call with
  | hasNext =>
    simp only [ask, hasNext]
    split
    · rfl
    · generalize s.readRow = answer at read ⊢
      cases answer with
      | mk first t => cases first <;> exact read
  | next =>
    simp only [ask, next]
    split
    · rfl
    · exact read
  | reset => exact readHeader_pristine (s.pristine.headed s.columns none)

theorem after_pristine (s : Source) (calls : List Call) :
    (s.after calls).pristine = s.pristine := by
  induction calls generalizing s with
  | nil => rfl
  | cons call calls ih =>
    rw [after, ih]
    exact s.ask_pristine call

/-! ## The names of the columns are read again -/

@[simp] theorem headed_window (s : Source) (columns : Row) (peeked : Option Row) :
    (s.headed columns peeked).window = s.window := rfl

@[simp] theorem headed_line (s : Source) (columns : Row) (peeked : Option Row) :
    (s.headed columns peeked).line = s.line := rfl

@[simp] theorem headed_done (s : Source) (columns : Row) (peeked : Option Row) :
    (s.headed columns peeked).done = s.done := rfl

theorem refill_headed (s : Source) (columns : Row) (peeked : Option Row) :
    (s.headed columns peeked).refill? = s.refill?.map (·.headed columns peeked) := by
  unfold refill? headed
  split <;> rfl

theorem finish_headed (s : Source) (columns : Row) (peeked : Option Row) (row : Row)
    (field : List UInt8) : (s.headed columns peeked).finish row field =
      ((s.finish row field).1, (s.finish row field).2.headed columns peeked) := by
  unfold finish headed
  split <;> rfl

theorem consume_headed {b : UInt8} {rest : List UInt8} {e : Event}
    (h : s.consume b rest = (e, t)) (columns : Row) (peeked : Option Row) :
    (s.headed columns peeked).consume b rest = (e, t.headed columns peeked) := by
  obtain ⟨rfl, rfl⟩ := Prod.mk.inj h
  rfl

theorem readOn_headed (s : Source) (columns : Row) (peeked : Option Row) (row : Row)
    (field : List UInt8) : (s.headed columns peeked).readOn row field =
      ((s.readOn row field).1, (s.readOn row field).2.headed columns peeked) := by
  fun_induction readOn s row field with
  | case1 s row field b rest hs t hc ih =>
    rw [readOn_of_cons (s := s.headed columns peeked) hs, consume_headed hc]
    exact ih
  | case2 s row field b rest hs c t hc ih =>
    rw [readOn_of_cons (s := s.headed columns peeked) hs, consume_headed hc]
    exact ih
  | case3 s row field b rest hs t hc row' hw ih =>
    rw [readOn_of_cons (s := s.headed columns peeked) hs, consume_headed hc]
    simp only [headed_line, hw]
    exact ih
  | case4 s row field b rest hs t hc e hw =>
    rw [readOn_of_cons (s := s.headed columns peeked) hs, consume_headed hc]
    simp only [headed_line, hw]
  | case5 s row field b rest hs t hc =>
    rw [readOn_of_cons (s := s.headed columns peeked) hs, consume_headed hc]
    rfl
  | case6 s row field hs he =>
    rw [readOn_of_ended (s := s.headed columns peeked) hs he]
    exact finish_headed s columns peeked row field
  | case7 s row field hs he hr =>
    rw [readOn_of_empty (s := s.headed columns peeked) hs (Bool.not_eq_true _ ▸ he), refill_headed,
      hr]
    rfl
  | case8 s row field hs he t hr hw =>
    rw [readOn_of_empty (s := s.headed columns peeked) hs (Bool.not_eq_true _ ▸ he), refill_headed,
      hr, Option.map_some]
    simp only [headed_window, hw, if_true]
    exact finish_headed t columns peeked row field
  | case9 s row field hs he t hr hw ih =>
    rw [readOn_of_empty (s := s.headed columns peeked) hs (Bool.not_eq_true _ ▸ he), refill_headed,
      hr, Option.map_some]
    simp only [headed_window, hw, if_false]
    exact ih

theorem readRow_headed (s : Source) (columns : Row) (peeked : Option Row) :
    (s.headed columns peeked).readRow = (s.readRow.1, s.readRow.2.headed columns peeked) := by
  by_cases done : s.done = true
  · simp only [readRow, headed_done, done, if_true]
  · simp only [readRow, headed_done, done]
    exact readOn_headed s columns peeked [] []

theorem readHeader_headed (read : s.readHeader = (.ok (), t)) (columns : Row)
    (peeked : Option Row) : (s.headed columns peeked).readHeader = (.ok (), t) := by
  rw [readHeader_eq] at read ⊢
  rw [readRow_headed]
  generalize s.readRow = answer at read ⊢
  obtain ⟨e | names, u⟩ := answer
  · cases read
  · exact read

theorem opened_iff {name : String} {delimiter : UInt8} {hasHeader : Bool} {supply : Supply} :
    open? name delimiter hasHeader supply = .ok s ↔
      (unopened name delimiter hasHeader supply).readHeader = (.ok (), s) := by
  rw [open?]
  split
  · next eq => simp [eq]
  · next eq => simp [eq]

theorem reset_after {name : String} {delimiter : UInt8} {hasHeader : Bool} {supply : Supply}
    (opened : open? name delimiter hasHeader supply = .ok s) (calls : List Call) :
    (s.after calls).reset = (.ok (), s) := by
  have read := opened_iff.mp opened
  have made : (s.after calls).pristine = unopened name delimiter hasHeader supply := by
    have kept := readHeader_pristine (unopened name delimiter hasHeader supply)
    rw [read] at kept
    exact (s.after_pristine calls).trans kept
  rw [reset_eq]
  change ((s.after calls).pristine.headed (s.after calls).columns none).readHeader = _
  rw [made]
  exact readHeader_headed read _ _

/-! ## Asking in advance -/

theorem finish_done {row : Row} {field : List UInt8} (h : (s.finish row field).1 = .ok none) :
    (s.finish row field).2.done = true := by
  unfold finish at h ⊢
  by_cases opened : s.place.isOpen = true
  · rw [if_pos opened] at h
    cases decoded : withField row s.line field <;> simp [decoded, Except.map] at h
  · rw [if_neg opened]

theorem readOn_done {row : Row} {field : List UInt8} (h : (s.readOn row field).1 = .ok none) :
    (s.readOn row field).2.done = true := by
  fun_induction readOn s row field with
  | case1 s row field b rest hs t hc ih => exact ih h
  | case2 s row field b rest hs c t hc ih => exact ih h
  | case3 s row field b rest hs t hc row' hw ih => exact ih h
  | case4 => cases h
  | case5 s row field b rest hs t hc =>
    cases decoded : withField row t.line field <;> simp [decoded, Except.map] at h
  | case6 => exact finish_done h
  | case7 => cases h
  | case8 => exact finish_done h
  | case9 s row field hs he t hr hw ih => exact ih h

theorem readRow_done (h : s.readRow = (.ok none, t)) : t.done = true := by
  unfold readRow at h
  by_cases done : s.done = true
  · rw [if_pos done] at h
    rw [← (Prod.mk.inj h).2]
    exact done
  · rw [if_neg done] at h
    have ended := readOn_done (congrArg Prod.fst h)
    rw [h] at ended
    exact ended

/-- A source that was asked whether there is a row, and what it answered, are in
agreement with what comes: the answer stays, and the row is still there. -/
structure Foretells (s : Source) (answer : Bool) (t : Source) : Prop where
  same : t.next = s.next
  row : ∃ row, t.next.1 = .ok row ∧ row.isSome = answer
  still : t.hasNext = (.ok answer, t)

theorem hasNext_foretells {answer : Bool} (h : s.hasNext = (.ok answer, t)) :
    s.Foretells answer t := by
  cases held : s.peeked with
  | some row =>
    simp only [hasNext, held] at h
    obtain ⟨yes, rfl⟩ := Prod.mk.inj h
    obtain rfl := Except.ok.inj yes
    exact ⟨rfl, ⟨some row, by simp [next, held], rfl⟩, by simp [hasNext, held]⟩
  | none =>
    have untouched := s.readRow_peeked
    simp only [hasNext, held] at h
    generalize read : s.readRow = asked at h untouched
    obtain ⟨e | peeked, u⟩ := asked
    · cases h
    obtain ⟨known, rfl⟩ := Prod.mk.inj h
    obtain rfl := Except.ok.inj known
    have unheld : u.peeked = none := untouched.trans held
    cases peeked with
    | some row =>
      have given : next { u with peeked := some row } = (.ok (some row), u) := by
        simp only [next, ← unheld]
      exact ⟨by rw [given, next, held, read], ⟨some row, by rw [given], rfl⟩, rfl⟩
    | none =>
      have unchanged : { u with peeked := none } = u := by rw [← unheld]
      have done := readRow_done read
      have ends : u.readRow = (.ok none, u) := by rw [readRow, if_pos done]
      rw [unchanged]
      refine ⟨?_, ⟨none, ?_, rfl⟩, ?_⟩
      · simp only [next, unheld, held, ends, read]
      · simp only [next, unheld, ends]
      · simp only [hasNext, unheld, ends, Option.isSome_none, unchanged]

theorem Foretells.replies {answer : Bool} (h : s.Foretells answer t) (count : Nat) :
    t.after (List.replicate count .hasNext) = t ∧
      t.replies (List.replicate count .hasNext) =
        List.replicate count (.found (.ok answer), t.columns) := by
  have asked : t.ask .hasNext = (.found (.ok answer), t) := by rw [ask, h.still]
  induction count with
  | zero => exact ⟨rfl, rfl⟩
  | succ count ih =>
    simp only [List.replicate_succ, after, Source.replies, asked, ih, and_self]

/-- A source that is set back is the source that was opened, whatever it was
asked before and whatever failed. Being asked whether there is a row does not
move it, and the answer is right. -/
theorem reset_reopens {name : String} {delimiter : UInt8} {hasHeader : Bool} {supply : Supply}
    (opened : open? name delimiter hasHeader supply = .ok s) (calls : List Call) :
    (s.after calls).reset = (.ok (), s) ∧
    (∀ later, s.replies (calls ++ .reset :: later) =
      s.replies calls ++ (.restarted (.ok ()), s.columns) :: s.replies later) ∧
    ∀ (t : Source) (answer : Bool) (u : Source), t.hasNext = (.ok answer, u) →
      (∃ row, u.next.1 = .ok row ∧ row.isSome = answer) ∧ u.next = t.next ∧
      ∀ count, u.after (List.replicate count .hasNext) = u ∧
        u.replies (List.replicate count .hasNext) =
          List.replicate count (.found (.ok answer), u.columns) := by
  have back := reset_after opened calls
  refine ⟨back, fun later => ?_, fun t answer u h => ?_⟩
  · rw [replies_append]
    simp only [replies, ask, back]
  · have told := hasNext_foretells h
    exact ⟨told.row, told.same, told.replies⟩

/-- A byte that is no text in the second record, and reads that fail in the
third. Asked behind that byte, the source has the rest of the second record. -/
theorem reset_reopens_broken :
    let supply : Supply :=
      ⟨[0x61, 0x2C, 0x62, 0x0A, 0x31, 0x2C, 0x32, 0x0A, 0xFF, 0x2C, 0x33, 0x0A, 0x34], fun _ => 5,
        some 13⟩
    let calls : List Call := [.next, .next, .next, .hasNext, .next]
    ∃ s, open? "t" 0x2C true supply = .ok s ∧ (s.after calls).reset = (.ok (), s) ∧
      s.replies (calls ++ [.reset, .next]) =
        s.replies calls ++ (.restarted (.ok ()), s.columns) :: s.replies [.next] ∧
      (s.after [.next, .next]).hasNext.1 = .ok true ∧
      ∃ row, (s.after [.next, .next]).hasNext.2.next.1 = .ok row ∧ row.isSome = true := by
  intro supply calls
  have read : (open? "t" 0x2C true supply).toOption.any
      (fun s => (s.after [.next, .next]).hasNext.1.toOption = some true) = true := by
    decide +kernel
  cases opened : open? "t" 0x2C true supply with
  | error e => simp [opened, Except.toOption] at read
  | ok s =>
    have more : (s.after [.next, .next]).hasNext.1 = .ok true := by
      cases told : (s.after [.next, .next]).hasNext.1 <;>
        simp_all [Except.toOption]
    obtain ⟨back, again, told⟩ := reset_reopens opened calls
    obtain ⟨row, -⟩ := told (s.after [.next, .next]) true _ (Prod.ext more rfl)
    exact ⟨s, rfl, back, again [.next], more, row⟩

end Source

end MatchingDependencies.Delimited
