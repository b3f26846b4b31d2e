import MatchingDependencies.Proofs.Delimited.Records
import MatchingDependencies.Proofs.Delimited.Rewinding

/-!
# Rows come from records

A source hands out the outcomes of the records of its text, each of them once
and in order, as long as no read fails. `toCome` lists what is left of them in
the middle of a row: reading on gives the first and leaves the others, however
the bytes arrive.
-/

set_option autoImplicit false

namespace MatchingDependencies.Delimited

open Text

def nextOf : List Outcome → Except InputError (Option Row)
  | [] => .ok none
  | outcome::_ => outcome.map some

def opening (hasHeader : Bool) (outcomes : List Outcome) : Except InputError (Row × List Outcome) :=
  if hasHeader then
    match nextOf outcomes with
    | .error e => .error e
    | .ok names => (nextOf outcomes.tail).map fun _ => (names.getD [], outcomes.tail)
  else
    (nextOf outcomes).map fun row =>
      ((List.range ((row.map List.length).getD 0)).map toString, outcomes)

/-- The answer to a call while outcomes are pending, and what is pending then.
All of them are pending again if the source is set back. -/
def serve (all : List Outcome) : Source.Call → List Outcome → Source.Answer × List Outcome
  | .next, pending => (.row (nextOf pending), pending.tail)
  | .hasNext, [] => (.found (.ok false), [])
  | .hasNext, .ok row :: pending => (.found (.ok true), .ok row :: pending)
  | .hasNext, .error e :: pending => (.found (.error e), pending)
  | .reset, _ => (.restarted (.ok ()), all)

def served (all : List Outcome) : List Outcome → List Source.Call → List Source.Answer
  | _, [] => []
  | pending, call::calls =>
    (serve all call pending).1 :: served all (serve all call pending).2 calls

theorem nextOf_eq_ok {outcomes : List Outcome} {next : Option Row} (h : nextOf outcomes = .ok next) :
    next.toList.map .ok ++ outcomes.tail = outcomes := by
  cases outcomes with
  | nil =>
    obtain rfl := Except.ok.inj h
    rfl
  | cons outcome outcomes =>
    cases outcome with
    | ok row =>
      obtain rfl := Except.ok.inj h
      rfl
    | error e => cases h

theorem serve_hasNext_of_ok {outcomes : List Outcome} {next : Option Row} (all : List Outcome)
    (h : nextOf outcomes = .ok next) :
    serve all .hasNext outcomes = (.found (.ok next.isSome), outcomes) := by
  cases outcomes with
  | nil =>
    obtain rfl := Except.ok.inj h
    rfl
  | cons outcome outcomes =>
    cases outcome with
    | ok row =>
      obtain rfl := Except.ok.inj h
      rfl
    | error e => cases h

theorem serve_hasNext_of_error {outcomes : List Outcome} {e : InputError} (all : List Outcome)
    (h : nextOf outcomes = .error e) :
    serve all .hasNext outcomes = (.found (.error e), outcomes.tail) := by
  cases outcomes with
  | nil => cases h
  | cons outcome outcomes =>
    cases outcome with
    | ok row => cases h
    | error e' =>
      obtain rfl := Except.error.inj h
      rfl

theorem Place.isOpen_react (delimiter b : UInt8) {place : Place}
    (inside : (react delimiter place b).2 ≠ .recordEnd)
    (h : place.isOpen = true ∨ (react delimiter place b).2 = .fieldEnd) :
    (react delimiter place b).1.isOpen = true := by
  cases place <;>
    simp only [react, reactAtRecord, reactAtField, reactInField] at inside h ⊢ <;>
    (repeat' split at inside) <;> simp_all [isOpen]

namespace Source

variable {s t : Source} {row : Row} {field : List UInt8}

/-- What is still to come from a source, given the fields of the row and the
bytes of the field so far, both last first. -/
def toCome (s : Source) (row : Row) (field : List UInt8) : List Outcome :=
  outcomesAfter row (recordsFrom s.delimiter s.place s.line field (s.window ++ s.ahead))

def left (s : Source) : List Outcome := if s.done then [] else s.toCome [] []

def pending (s : Source) : List Outcome := s.peeked.toList.map .ok ++ s.left

/-- A source that has begun to look at its text. What is ahead is the rest of
the text, and a read brings at least one byte of it. -/
structure Underway (s : Source) : Prop where
  flows : Flows s.supply.bytes s.supply.limit
  ahead : s.ahead = s.supply.bytes.drop s.offset
  begun : s.isFresh = false
  ended : s.ended = true → s.ahead = []

/-! ## Pieces -/

theorem Underway.congr (h : s.Underway) (supply : t.supply = s.supply) (ahead : t.ahead = s.ahead)
    (offset : t.offset = s.offset) (begun : t.isFresh = s.isFresh) (ended : t.ended = s.ended) :
    t.Underway := by
  constructor
  · rw [supply]; exact h.flows
  · rw [ahead, supply, offset]; exact h.ahead
  · rw [begun]; exact h.begun
  · rw [ended, ahead]; exact h.ended

theorem Underway.consume {b : UInt8} {rest : List UInt8} {e : Event} (h : s.Underway)
    (hc : s.consume b rest = (e, t)) : t.Underway := by
  rw [← (Prod.mk.inj hc).2]
  exact h.congr rfl rfl rfl rfl rfl

theorem Underway.finish (h : s.Underway) (row : Row) (field : List UInt8) :
    (s.finish row field).2.Underway := by
  unfold Source.finish
  split <;> exact h.congr rfl rfl rfl rfl rfl

theorem Underway.headed (h : s.Underway) (columns : Row) (peeked : Option Row) :
    (s.headed columns peeked).Underway :=
  h.congr rfl rfl rfl rfl rfl

theorem underway_refill (flows : Flows s.supply.bytes s.supply.limit)
    (ahead : s.ahead = s.supply.bytes.drop s.offset) (h : s.refill? = some t) : t.Underway := by
  obtain ⟨readable, rfl⟩ := refill_eq_some_iff.mp h
  constructor
  · exact flows
  · exact refilled_ahead ahead
  · rfl
  · intro ended
    have none := take_allowance_eq_nil flows ahead readable (List.isEmpty_iff.mp ended)
    simp only [refilled, none, List.drop_nil]

theorem Underway.refill (h : s.Underway) (arrived : s.refill? = some t) :
    t.Underway ∧ t.window ++ t.ahead = s.ahead ∧ (t.window = [] → t.ahead = []) := by
  have going := underway_refill h.flows h.ahead arrived
  obtain ⟨-, rfl⟩ := refill_eq_some_iff.mp arrived
  have window : s.refilled.window = s.ahead.take s.allowance := by simp [refilled, h.begun]
  rw [window]
  exact ⟨going, List.take_append_drop _ _, fun nothing => going.ended (by simp [refilled, nothing])⟩

/-! ## One row -/

theorem withField_eq (row : Row) (line : Nat) (field : List UInt8) :
    withField row line field = (RawField.text ⟨field.reverse, line⟩).map (· :: row) := by
  rw [withField, RawField.text]
  cases decode field.reverse <;> rfl

theorem toCome_consume {b : UInt8} {rest : List UInt8} (hs : s.window = b::rest) (row : Row)
    (field : List UInt8) :
    s.toCome row field =
      match s.consume b rest with
      | (.skip, t) => t.toCome row field
      | (.byte c, t) => t.toCome row (c::field)
      | (.fieldEnd, t) =>
        match RawField.text ⟨field.reverse, t.line⟩ with
        | .ok text => t.toCome (text::row) []
        | .error e => .error e :: t.toCome [] []
      | (.recordEnd, t) =>
        ((RawField.text ⟨field.reverse, t.line⟩).map fun text => (text::row).reverse) ::
          t.toCome [] [] := by
  rw [toCome, hs, List.cons_append, recordsFrom]
  cases reaction : s.place.react s.delimiter b with
  | mk place event =>
    have consumed : s.consume b rest = (event, { s with
        window := rest, place, line := if b = lineFeed then s.line+1 else s.line }) := by
      simp only [consume, reaction]
    rw [consumed]
    cases event with
    | skip => rfl
    | byte c => rfl
    | fieldEnd => exact outcomesAfter_inFront row _ _
    | recordEnd => exact outcomesAfter_lone row _ _

theorem toCome_end (window : s.window = []) (ahead : s.ahead = []) (row : Row)
    (field : List UInt8) :
    s.toCome row field =
      if s.place.isOpen then
        [(RawField.text ⟨field.reverse, s.line⟩).map fun text => (text::row).reverse]
      else outcomesFrom row [] := by
  rw [toCome, window, ahead, List.append_nil, recordsFrom]
  split
  · rw [outcomesAfter_lone]
    rfl
  · rfl

structure Gives (outcomes : List Outcome) (answered : Except InputError (Option Row) × Source) :
    Prop where
  answer : answered.1 = nextOf outcomes
  left : answered.2.left = outcomes.tail

theorem Gives.pending {outcomes : List Outcome} {next : Option Row}
    (h : Gives outcomes (.ok next, t)) (columns : Row) :
    (t.headed columns next).pending = outcomes := by
  have whole := nextOf_eq_ok h.answer.symm
  rwa [← h.left] at whole

theorem pending_of_unpeeked (h : s.peeked = none) : s.pending = s.left := by
  simp [Source.pending, h]

theorem gives_lone (row : Row) (f : RawField) (going : t.done = false) :
    Gives ((f.text.map fun text => (text::row).reverse) :: t.toCome [] [])
      ((f.text.map (· :: row)).map fun r => some r.reverse, t) where
  answer := by cases f.text <;> simp [nextOf, Except.map]
  left := by simp [left, going]

structure Midway (row : Row) (s : Source) : Prop where
  underway : s.Underway
  going : s.done = false
  inside : row ≠ [] → s.place.isOpen = true

theorem Midway.consume {b : UInt8} {rest : List UInt8} {e : Event} (h : s.Midway row)
    (hc : s.consume b rest = (e, t)) (unended : e ≠ .recordEnd) : t.Midway row := by
  have underway := h.underway.consume hc
  obtain ⟨rfl, rfl⟩ := Prod.mk.inj hc
  constructor
  · exact underway
  · exact h.going
  · intro some
    exact Place.isOpen_react s.delimiter b unended (.inl (h.inside some))

theorem Midway.fieldEnd {b : UInt8} {rest : List UInt8} (h : s.Midway row)
    (hc : s.consume b rest = (.fieldEnd, t)) (row' : Row) : t.Midway row' := by
  have event : (s.place.react s.delimiter b).2 = .fieldEnd := (Prod.mk.inj hc).1
  have unended : (s.place.react s.delimiter b).2 ≠ .recordEnd := by rw [event]; decide
  have underway := h.underway.consume hc
  obtain ⟨-, rfl⟩ := Prod.mk.inj hc
  constructor
  · exact underway
  · exact h.going
  · intro _
    exact Place.isOpen_react s.delimiter b unended (.inr event)

theorem Midway.refill (h : s.Midway row) (arrived : s.refill? = some t) : t.Midway row := by
  obtain ⟨underway, -⟩ := h.underway.refill arrived
  obtain ⟨-, rfl⟩ := refill_eq_some_iff.mp arrived
  exact ⟨underway, h.going, h.inside⟩

theorem toCome_refill (h : s.Underway) (empty : s.window = []) (arrived : s.refill? = some t)
    (row : Row) (field : List UInt8) : t.toCome row field = s.toCome row field := by
  obtain ⟨-, same, -⟩ := h.refill arrived
  rw [toCome, toCome, same, empty, List.nil_append]
  obtain ⟨-, rfl⟩ := refill_eq_some_iff.mp arrived
  rfl

theorem Midway.finish_gives (h : s.Midway row) (window : s.window = []) (ahead : s.ahead = []) :
    Gives (s.toCome row field) (s.finish row field) := by
  rw [toCome_end window ahead]
  by_cases opened : s.place.isOpen = true
  · let t : Source := { s with place := .recordStart }
    have nothing : t.toCome [] [] = [] := toCome_end (s := t) window ahead [] []
    have lone := gives_lone (t := t) row ⟨field.reverse, s.line⟩ h.going
    rw [finish, if_pos opened, if_pos opened, withField_eq]
    rwa [nothing] at lone
  · obtain rfl : row = [] := Classical.byContradiction fun some => opened (h.inside some)
    rw [finish, if_neg opened, if_neg opened]
    exact ⟨rfl, rfl⟩

def Hands (s : Source) (outcomes : List Outcome)
    (answered : Except InputError (Option Row) × Source) : Prop :=
  (s.supply.failAt.isSome = true ∧ answered.1 = .error .unreadable) ∨ Gives outcomes answered

theorem Hands.congr {outcomes : List Outcome} {answered : Except InputError (Option Row) × Source}
    (h : t.Hands outcomes answered) (made : t.pristine = s.pristine) :
    s.Hands outcomes answered := by
  have same : t.supply = s.supply := congrArg (·.supply) made
  rwa [Hands, same] at h

theorem Midway.readOn_hands (h : s.Midway row) :
    s.Hands (s.toCome row field) (s.readOn row field) := by
  fun_induction readOn s row field with
  | case1 s row field b rest hs t hc ih =>
    rw [toCome_consume hs, hc]
    exact (ih (h.consume hc (by decide))).congr (consume_pristine hc)
  | case2 s row field b rest hs c t hc ih =>
    rw [toCome_consume hs, hc]
    exact (ih (h.consume hc (by simp))).congr (consume_pristine hc)
  | case3 s row field b rest hs t hc row' hw ih =>
    rw [withField_eq] at hw
    rw [toCome_consume hs, hc]
    cases read : RawField.text ⟨field.reverse, t.line⟩ with
    | error e => simp [read, Except.map] at hw
    | ok text =>
      obtain rfl : text::row = row' := by simpa [read, Except.map] using hw
      simp only [read]
      exact (ih (h.fieldEnd hc _)).congr (consume_pristine hc)
  | case4 s row field b rest hs t hc e hw =>
    rw [withField_eq] at hw
    have going := (h.fieldEnd hc []).going
    rw [toCome_consume hs, hc]
    cases read : RawField.text ⟨field.reverse, t.line⟩ with
    | ok text => simp [read, Except.map] at hw
    | error e' =>
      obtain rfl : e' = e := by simpa [read, Except.map] using hw
      simp only [read]
      exact .inr ⟨rfl, by simp [left, going]⟩
  | case5 s row field b rest hs t hc =>
    rw [toCome_consume hs, hc, withField_eq]
    obtain ⟨-, rfl⟩ := Prod.mk.inj hc
    exact .inr (gives_lone row _ h.going)
  | case6 s row field hs he => exact .inr (h.finish_gives hs (h.underway.ended he))
  | case7 s row field hs he hr =>
    -- No outcome of the text: a read has failed, and nothing is said about what is left.
    exact .inl ⟨by rw [refill_eq_none_iff.mp hr]; rfl, rfl⟩
  | case8 s row field hs he t hr hw =>
    obtain ⟨-, -, drained⟩ := h.underway.refill hr
    rw [← toCome_refill h.underway hs hr]
    exact .inr ((h.refill hr).finish_gives hw (drained hw))
  | case9 s row field hs he t hr hw ih =>
    rw [← toCome_refill h.underway hs hr]
    exact (ih (h.refill hr)).congr (refill_pristine hr)

theorem Underway.readRow_hands (h : s.Underway) : s.Hands s.left s.readRow := by
  by_cases done : s.done = true
  · simp only [left, readRow, done, if_true]
    exact .inr ⟨rfl, by simp [left, done]⟩
  · have midway : s.Midway [] := ⟨h, Bool.not_eq_true _ ▸ done, fun some => absurd rfl some⟩
    simp only [left, readRow, done]
    exact midway.readOn_hands

theorem readOn_underway (h : s.Underway) (row : Row) (field : List UInt8) :
    (s.readOn row field).2.Underway := by
  fun_induction readOn s row field with
  | case1 s row field b rest hs t hc ih => exact ih (h.consume hc)
  | case2 s row field b rest hs c t hc ih => exact ih (h.consume hc)
  | case3 s row field b rest hs t hc row' hw ih => exact ih (h.consume hc)
  | case4 s row field b rest hs t hc => exact h.consume hc
  | case5 s row field b rest hs t hc => exact h.consume hc
  | case6 s row field => exact h.finish row field
  | case7 => exact h.congr rfl rfl rfl rfl rfl
  | case8 s row field hs he t hr => exact (h.refill hr).1.finish row field
  | case9 s row field hs he t hr hw ih => exact ih (h.refill hr).1

theorem Underway.readRow (h : s.Underway) : s.readRow.2.Underway := by
  unfold Source.readRow
  split
  · exact h
  · exact readOn_underway h [] []

theorem readRow_columns (s : Source) : s.readRow.2.columns = s.columns := by
  have same := congrArg (·.2.columns) (readRow_headed s s.columns s.peeked)
  exact same

/-! ## Opening -/

def firstPiece (supply : Supply) : List UInt8 :=
  supply.bytes.take (unopened "" 0 false supply).allowance

def behindMark (supply : Supply) : List UInt8 :=
  if byteOrderMark.isPrefixOf (firstPiece supply) then supply.bytes.drop 3 else supply.bytes

/-- What the reader gets to see of a text. A byte order mark ends the text if
nothing else arrives with it. -/
def shown (supply : Supply) : List UInt8 :=
  if firstPiece supply = byteOrderMark then [] else behindMark supply

theorem shown_of_unmarked {supply : Supply} (unmarked : ¬byteOrderMark <+: supply.bytes) :
    shown supply = supply.bytes := by
  have none : ¬byteOrderMark <+: firstPiece supply :=
    fun marked => unmarked (marked.trans (List.take_prefix _ _))
  rw [shown, behindMark, if_neg, if_neg]
  · rwa [List.isPrefixOf_iff_prefix]
  · intro same
    exact none (same ▸ List.prefix_rfl)

variable (name : String) (delimiter : UInt8) (hasHeader : Bool) {supply : Supply}

def fated (supply : Supply) : List Outcome :=
  (records delimiter (shown supply)).flatMap outcomes

section FirstPiece

variable {name delimiter hasHeader}

theorem refill_window_eq (h : (unopened name delimiter hasHeader supply).refill? = some t) :
    t.window = if byteOrderMark.isPrefixOf (firstPiece supply) then (firstPiece supply).drop 3
      else firstPiece supply := by
  obtain ⟨-, rfl⟩ := refill_eq_some_iff.mp h
  rfl

theorem refill_behindMark (h : (unopened name delimiter hasHeader supply).refill? = some t) :
    t.window ++ t.ahead = behindMark supply := by
  have split : firstPiece supply ++ supply.bytes.drop (unopened "" 0 false supply).allowance =
      supply.bytes := List.take_append_drop _ _
  have ahead : t.ahead = supply.bytes.drop (unopened "" 0 false supply).allowance := by
    obtain ⟨-, rfl⟩ := refill_eq_some_iff.mp h
    rfl
  rw [refill_window_eq h, ahead, behindMark]
  generalize supply.bytes.drop (unopened "" 0 false supply).allowance = behind at split ⊢
  generalize firstPiece supply = piece at split ⊢
  rw [← split]
  by_cases marked : byteOrderMark.isPrefixOf piece = true
  · obtain ⟨rest, rfl⟩ := List.isPrefixOf_iff_prefix.mp marked
    simp [byteOrderMark]
  · rw [if_neg marked, if_neg marked]

theorem refill_shown (flows : Flows supply.bytes supply.limit)
    (h : (unopened name delimiter hasHeader supply).refill? = some t) :
    shown supply = if t.window = [] then [] else behindMark supply := by
  have nothing : firstPiece supply = [] → supply.bytes = [] :=
    take_allowance_eq_nil (s := unopened name delimiter hasHeader supply) flows rfl
      (refill_eq_some_iff.mp h).1
  rw [refill_window_eq h, shown]
  by_cases marked : byteOrderMark.isPrefixOf (firstPiece supply) = true
  · rw [if_pos marked]
    obtain ⟨rest, same⟩ := List.isPrefixOf_iff_prefix.mp marked
    rw [← same]
    simp [byteOrderMark]
  · have other : firstPiece supply ≠ byteOrderMark := by
      intro same
      rw [same] at marked
      exact marked rfl
    rw [if_neg marked, if_neg other, behindMark, if_neg marked]
    split
    · next empty => exact nothing empty
    · rfl

end FirstPiece

theorem readRow_unopened (flows : Flows supply.bytes supply.limit) :
    (supply.failAt.isSome = true ∧
      (unopened name delimiter hasHeader supply).readRow.1 = .error .unreadable) ∨
      Gives (fated delimiter supply) (unopened name delimiter hasHeader supply).readRow ∧
        (unopened name delimiter hasHeader supply).readRow.2.Underway := by
  have read : (unopened name delimiter hasHeader supply).readRow =
      (unopened name delimiter hasHeader supply).readOn [] [] := rfl
  rw [read, readOn_of_empty rfl rfl]
  cases arrived : (unopened name delimiter hasHeader supply).refill? with
  | none =>
    have fails : supply.failAt = some 0 := refill_eq_none_iff.mp arrived
    exact .inl ⟨by rw [fails]; rfl, rfl⟩
  | some t =>
    have whole := refill_shown flows arrived
    have underway := underway_refill flows rfl arrived
    have fresh : t.place = .recordStart ∧ t.line = 1 ∧ t.delimiter = delimiter ∧
        t.done = false := by
      obtain ⟨-, rfl⟩ := refill_eq_some_iff.mp arrived
      exact ⟨rfl, rfl, rfl, rfl⟩
    obtain ⟨place, line, delimited, going⟩ := fresh
    by_cases empty : t.window = []
    · have closed : t.finish [] [] = (.ok none, { t with done := true }) := by
        simp [finish, place, Place.isOpen]
      simp only [empty, if_true, closed]
      refine .inr ⟨?_, underway.congr rfl rfl rfl rfl rfl⟩
      rw [fated, whole, if_pos empty]
      exact ⟨rfl, rfl⟩
    · have midway : t.Midway [] := ⟨underway, going, fun some => absurd rfl some⟩
      have come : t.toCome [] [] = fated delimiter supply := by
        rw [toCome, place, line, delimited, refill_behindMark arrived, outcomesAfter_nil, fated,
          whole, if_neg empty]
        rfl
      simp only [empty, if_false]
      have hands : t.Hands (t.toCome [] []) (t.readOn [] []) := midway.readOn_hands
      rcases hands with ⟨fails, unread⟩ | gives
      · have supplied : t.supply = supply := congrArg (·.supply) (refill_pristine arrived)
        exact .inl ⟨supplied ▸ fails, unread⟩
      · exact .inr ⟨come ▸ gives, readOn_underway underway [] []⟩

theorem readHeader_unopened (flows : Flows supply.bytes supply.limit) :
    (supply.failAt.isSome = true ∧
      (unopened name delimiter hasHeader supply).readHeader.1 = .error .unreadable) ∨
      ((unopened name delimiter hasHeader supply).readHeader.1.map fun _ =>
        ((unopened name delimiter hasHeader supply).readHeader.2.columns,
          (unopened name delimiter hasHeader supply).readHeader.2.pending)) =
        opening hasHeader (fated delimiter supply) ∧
      (unopened name delimiter hasHeader supply).readHeader.2.Underway := by
  have made := readRow_pristine (unopened name delimiter hasHeader supply)
  have hands := readRow_unopened name delimiter hasHeader flows
  generalize fated delimiter supply = all at hands ⊢
  rw [readHeader_eq, opening]
  generalize (unopened name delimiter hasHeader supply).readRow = asked at made hands ⊢
  obtain ⟨answer, t⟩ := asked
  have header : t.hasHeader = hasHeader := congrArg (·.hasHeader) made
  have supplied : t.supply = supply := congrArg (·.supply) made
  rcases hands with ⟨fails, unread⟩ | ⟨gives, underway⟩
  · obtain rfl : answer = .error .unreadable := unread
    exact .inl ⟨fails, rfl⟩
  obtain rfl : answer = nextOf all := gives.answer
  simp only at underway
  cases first : nextOf all with
  | error e =>
    right
    cases hasHeader <;> exact ⟨rfl, underway⟩
  | ok names =>
    rw [first] at gives
    cases hasHeader with
    | false =>
      simp only [header]
      exact .inr ⟨congrArg (fun all => Except.ok (_, all)) (gives.pending _), underway.headed _ _⟩
    | true =>
      -- The row behind the names is read from what the first one has left.
      let named : Source := t.headed (names.getD []) none
      have kept : named.left = all.tail := gives.left
      have hands := (underway.headed (names.getD []) none).readRow_hands
      have going := (underway.headed (names.getD []) none).readRow
      have columns := readRow_columns named
      rw [kept] at hands
      simp only [header, if_true]
      change Hands named _ named.readRow at hands
      generalize named.readRow = asked at hands going columns ⊢
      obtain ⟨answer, u⟩ := asked
      rcases hands with ⟨fails, unread⟩ | gives
      · obtain rfl : answer = .error .unreadable := unread
        exact .inl ⟨supplied ▸ fails, rfl⟩
      obtain rfl : answer = nextOf all.tail := gives.answer
      right
      cases second : nextOf all.tail with
      | error e => exact ⟨rfl, going⟩
      | ok peeked =>
        rw [second] at gives
        exact ⟨congrArg Except.ok (Prod.ext columns (gives.pending _)), going.headed _ _⟩

/-! ## Calls -/

theorem Underway.ask_serves (h : s.Underway) (all : List Outcome) {call : Call}
    (onward : call ≠ .reset) :
    (s.supply.failAt.isSome = true ∧ (s.ask call).1.isUnreadable = true) ∨
      ((s.ask call).1, (s.ask call).2.pending) = serve all call s.pending := by
  have hands := h.readRow_hands
  have unpeeked := s.readRow_peeked
  cases peeked : s.peeked with
  | some row =>
    right
    cases call with
    | hasNext => simp [ask, hasNext, peeked, pending, serve]
    | next => simp [ask, next, peeked, pending, serve, nextOf, left, toCome, Except.map]
    | reset => exact absurd rfl onward
  | none =>
    rw [pending_of_unpeeked peeked]
    generalize read : s.readRow = asked at hands unpeeked
    obtain ⟨answer, t⟩ := asked
    have unheld : t.peeked = none := unpeeked.trans peeked
    rcases hands with ⟨fails, unread⟩ | gives
    · obtain rfl : answer = .error .unreadable := unread
      refine .inl ⟨fails, ?_⟩
      cases call with
      | hasNext => simp [ask, hasNext, peeked, read, Answer.isUnreadable, failsToRead]
      | next => simp [ask, next, peeked, read, Answer.isUnreadable, failsToRead]
      | reset => exact absurd rfl onward
    right
    have rest : t.pending = s.left.tail := (pending_of_unpeeked unheld).trans gives.left
    have given : nextOf s.left = answer := gives.answer.symm
    cases call with
    | next => simp [ask, next, peeked, read, serve, given, rest]
    | hasNext =>
      cases answer with
      | error e =>
        rw [serve_hasNext_of_error all given, ← rest]
        simp [ask, hasNext, peeked, read]
      | ok row =>
        have asked : s.ask .hasNext = (.found (.ok row.isSome), t.headed t.columns row) := by
          simp [Source.ask, hasNext, peeked, read, Source.headed]
        rw [serve_hasNext_of_ok all given, asked, gives.pending]
    | reset => exact absurd rfl onward

theorem Underway.ask (h : s.Underway) {call : Call} (onward : call ≠ .reset) :
    (s.ask call).2.Underway ∧ (s.ask call).2.columns = s.columns := by
  rcases s.ask_cases onward with ⟨row, peeked, -, after, -⟩ | ⟨peeked, -, after, -⟩
  · rw [after]
    exact ⟨h.headed _ _, rfl⟩
  · rw [after]
    exact ⟨h.readRow.headed _ _, s.readRow_columns⟩

theorem reset_serves {columns : Row} {all : List Outcome} (unfailing : s.supply.failAt = none)
    (flows : Flows s.supply.bytes s.supply.limit)
    (opened : opening s.hasHeader (fated s.delimiter s.supply) = .ok (columns, all)) :
    s.reset.1 = .ok () ∧ s.reset.2.columns = columns ∧ s.reset.2.pending = all ∧
      s.reset.2.Underway := by
  rcases readHeader_unopened s.name s.delimiter s.hasHeader flows with ⟨fails, -⟩ | ⟨same, going⟩
  · simp [unfailing] at fails
  rw [opened] at same
  generalize read : (unopened s.name s.delimiter s.hasHeader s.supply).readHeader = asked
    at same going
  obtain ⟨answer, t⟩ := asked
  cases answer with
  | error e => cases same
  | ok _ =>
    obtain ⟨names, pending⟩ := Prod.mk.inj (Except.ok.inj same)
    rw [reset_eq, readHeader_headed read]
    exact ⟨rfl, names, pending, going⟩

structure Serving (bytes : List UInt8) (columns : Row) (all pending : List Outcome) (s : Source) :
    Prop where
  underway : s.Underway
  text : s.supply.bytes = bytes
  unfailing : s.supply.failAt = none
  opened : opening s.hasHeader ((records s.delimiter bytes).flatMap outcomes) = .ok (columns, all)
  columns : s.columns = columns
  pending : s.pending = pending

variable {bytes : List UInt8} {columns : Row} {all pending : List Outcome}

theorem Serving.paced (h : s.Serving bytes columns all pending) {limit : Nat → Nat}
    (flows : Flows bytes limit) : (s.paced limit).Serving bytes columns all pending where
  underway := { h.underway with flows := h.text ▸ flows }
  text := h.text
  unfailing := h.unfailing
  opened := h.opened
  columns := h.columns
  pending := h.pending

theorem Serving.ask (h : s.Serving bytes columns all pending) (unmarked : ¬byteOrderMark <+: bytes)
    (call : Call) : (s.ask call).1 = (serve all call pending).1 ∧
      (s.ask call).2.Serving bytes columns all (serve all call pending).2 := by
  have made := s.ask_pristine call
  have supply : (s.ask call).2.supply = s.supply := congrArg (·.supply) made
  have hasHeader : (s.ask call).2.hasHeader = s.hasHeader := congrArg (·.hasHeader) made
  have delimiter : (s.ask call).2.delimiter = s.delimiter := congrArg (·.delimiter) made
  have asked : (s.ask call).1 = (serve all call pending).1 ∧ (s.ask call).2.columns = columns ∧
      (s.ask call).2.pending = (serve all call pending).2 ∧ (s.ask call).2.Underway := by
    by_cases reset : call = .reset
    · have fate : fated s.delimiter s.supply = (records s.delimiter bytes).flatMap outcomes := by
        rw [fated, shown_of_unmarked (h.text ▸ unmarked), h.text]
      obtain ⟨answer, back⟩ := reset_serves h.unfailing h.underway.flows (fate ▸ h.opened)
      subst reset
      exact ⟨congrArg Answer.restarted answer, back⟩
    · obtain ⟨going, columns⟩ := h.underway.ask reset
      rcases h.underway.ask_serves all reset with ⟨fails, -⟩ | served
      · simp [h.unfailing] at fails
      · rw [h.pending] at served
        obtain ⟨answer, rest⟩ := Prod.mk.inj served
        exact ⟨answer, columns.trans h.columns, rest, going⟩
  obtain ⟨answer, columns, rest, going⟩ := asked
  refine ⟨answer, going, supply ▸ h.text, supply ▸ h.unfailing, ?_, columns, rest⟩
  rw [hasHeader, delimiter]
  exact h.opened

theorem Serving.transcript (h : s.Serving bytes columns all pending)
    (unmarked : ¬byteOrderMark <+: bytes) {pace : Nat → Nat → Nat}
    (flows : ∀ n, Flows bytes (pace n)) (calls : List Call) :
    s.transcript pace calls = (served all pending calls).map fun answer => (answer, columns) := by
  induction calls generalizing s pending pace with
  | nil => rfl
  | cons call calls ih =>
    obtain ⟨answer, later⟩ := (h.paced (flows 0)).ask unmarked call
    rw [Source.transcript, served, List.map_cons, ← ih later fun n => flows (n+1), answer,
      later.columns]

/-- Opening a source and asking it gives the outcomes of the records of its text,
in whatever pieces the text arrives. -/
theorem session_eq (name : String) (delimiter : UInt8) (hasHeader : Bool)
    (unmarked : ¬byteOrderMark <+: bytes) {pace : Nat → Nat → Nat}
    (flows : ∀ n, Flows bytes (pace n)) (calls : List Call) :
    session name delimiter hasHeader bytes pace calls =
      (opening hasHeader ((records delimiter bytes).flatMap outcomes)).map fun start =>
        (start.1, (served start.2 start.2 calls).map fun answer => (answer, start.1)) := by
  let supply : Supply := ⟨bytes, pace 0, none⟩
  have fate : fated delimiter supply = (records delimiter bytes).flatMap outcomes :=
    congrArg (fun bytes => (records delimiter bytes).flatMap outcomes) (shown_of_unmarked unmarked)
  have made := readHeader_pristine (unopened name delimiter hasHeader supply)
  have first : Flows supply.bytes supply.limit := flows 0
  rw [session, open?_eq]
  rcases readHeader_unopened name delimiter hasHeader first with ⟨fails, -⟩ | ⟨same, going⟩
  · cases fails
  rw [fate] at same
  generalize (unopened name delimiter hasHeader supply).readHeader = asked at made same going ⊢
  obtain ⟨answer, s⟩ := asked
  cases answer with
  | error e =>
    rw [← same]
    rfl
  | ok _ =>
    have hasHeader' : s.hasHeader = hasHeader := congrArg (·.hasHeader) made
    have delimiter' : s.delimiter = delimiter := congrArg (·.delimiter) made
    have supplied : s.supply = supply := congrArg (·.supply) made
    have serving : s.Serving bytes s.columns s.pending s.pending := by
      refine ⟨going, supplied ▸ rfl, supplied ▸ rfl, ?_, rfl, rfl⟩
      rw [hasHeader', delimiter', ← same]
      rfl
    rw [← same]
    simp only [Except.map]
    rw [serving.transcript unmarked fun n => flows (n+1)]

end Source

end MatchingDependencies.Delimited
