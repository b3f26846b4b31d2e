import MatchingDependencies.Failure
import MatchingDependencies.Delimited.Reader

/-!
# Delimited text as a source of rows

The text arrives in pieces. A piece is read only when the one before it is
used up, and it is kept until the next one has arrived. If reading fails, the
kept piece is looked at again from its start, while the place in the text and
the count of lines stay where they were.

A byte order mark is dropped if it stands at the start of the first piece; a
first piece that holds nothing else ends the text.

One row is read in advance. The first row gives the names of the columns, or
their number if there is no header.

The bytes of a field are kept in a list. The buffer they are written to, and
how it grows when it is full, is left out: no answer depends on its size.
-/

set_option autoImplicit false

namespace MatchingDependencies.Delimited

open Text

abbrev Row := List String

/-- A text and the way it arrives: the greatest size of the piece that starts
at a position, and the position at which reading fails. -/
structure Supply where
  bytes : List UInt8
  limit : Nat → Nat
  failAt : Option Nat

def bufferSize : Nat := 16384

def Supply.whole (bytes : List UInt8) : Supply := ⟨bytes, fun _ => bufferSize, none⟩

structure Source where
  name : String
  delimiter : UInt8
  hasHeader : Bool
  supply : Supply
  /-- What has not arrived yet, and its position in the text. -/
  ahead : List UInt8
  offset : Nat
  /-- The last piece that arrived, and what is left of it to look at. -/
  held : List UInt8
  window : List UInt8
  /-- No byte has been looked at. -/
  isFresh : Bool
  /-- Everything has arrived. -/
  ended : Bool
  /-- The reader has reached the end of the text. -/
  done : Bool
  place : Place
  line : Nat
  columns : Row
  peeked : Option Row

namespace Source

def byteOrderMark : List UInt8 := [0xEF, 0xBB, 0xBF]

def allowance (s : Source) : Nat :=
  let limit := min (s.supply.limit s.offset) bufferSize
  match s.supply.failAt with
  | some position => if s.offset < position then min limit (position - s.offset) else limit
  | none => limit

def refill? (s : Source) : Option Source :=
  if s.supply.failAt = some s.offset then none
  else
    let piece := s.ahead.take s.allowance
    let window := if s.isFresh && byteOrderMark.isPrefixOf piece then piece.drop 3 else piece
    some { s with
      ahead := s.ahead.drop s.allowance
      offset := s.offset + piece.length
      held := piece
      window
      isFresh := false
      ended := piece.isEmpty }

/-- How much of the text is still to be looked at; what has not arrived counts
twice. -/
def unread (s : Source) : Nat :=
  2*s.ahead.length + s.window.length + (if s.ended then 0 else 1)

def remaining (s : Source) : Nat := s.unread + (if s.place.isOpen then 1 else 0)

theorem refill_window (s t : Source) (h : s.refill? = some t) :
    t.ahead.length + t.window.length ≤ s.ahead.length ∧ t.place = s.place := by
  unfold refill? at h
  split at h
  · cases h
  · simp only [Option.some.injEq] at h
    subst h
    refine ⟨?_, rfl⟩
    simp only [List.length_drop]
    split <;> simp only [List.length_drop, List.length_take] <;> omega

theorem refill_unread (s t : Source) (h : s.refill? = some t) (hs : s.window = [])
    (he : s.ended = false) (hw : t.window ≠ []) : t.unread < s.unread := by
  obtain ⟨h1, _⟩ := refill_window s t h
  have h2 : 0 < t.window.length := List.length_pos_iff.2 hw
  simp only [unread, hs, he, List.length_nil]
  split <;> simp <;> omega

def withField (row : Row) (line : Nat) (field : List UInt8) : Except InputError Row :=
  match decode field.reverse with
  | .ok text => .ok (text :: row)
  | .error fault => .error (.invalidText line fault)

def consume (s : Source) (b : UInt8) (rest : List UInt8) : Event × Source :=
  let (place, event) := s.place.react s.delimiter b
  (event, { s with window := rest, place, line := if b = lineFeed then s.line+1 else s.line })

theorem consume_unread (s : Source) (b : UInt8) (rest : List UInt8) (hs : s.window = b::rest) :
    (s.consume b rest).2.unread + 1 = s.unread := by
  simp only [consume, unread, hs, List.length_cons]
  split <;> simp_all <;> omega

def finish (s : Source) (row : Row) (field : List UInt8) :
    Except InputError (Option Row) × Source :=
  if s.place.isOpen then
    ((withField row s.line field).map fun r => some r.reverse, { s with place := .recordStart })
  else (.ok none, { s with done := true })

theorem consume_remaining (s : Source) (b : UInt8) (rest : List UInt8) (hs : s.window = b::rest)
    {e : Event} {t : Source} (h : s.consume b rest = (e, t)) : t.remaining ≤ s.remaining := by
  have h1 := consume_unread s b rest hs
  simp only [h] at h1
  simp only [remaining]
  split <;> omega

theorem recordEnd_remaining (s : Source) (b : UInt8) (rest : List UInt8) (hs : s.window = b::rest)
    {t : Source} (h : s.consume b rest = (.recordEnd, t)) : t.remaining < s.remaining := by
  have h1 := consume_unread s b rest hs
  simp only [h] at h1
  simp only [consume, Prod.mk.injEq] at h
  have h2 : t.place.isOpen = false := by
    rw [← h.2]
    exact Place.recordEnd_closes s.delimiter b s.place h.1
  simp only [remaining, h2]
  simp
  omega

theorem refill_remaining (s t : Source) (h : s.refill? = some t) (hs : s.window = [])
    (he : ¬ s.ended = true) : t.remaining ≤ s.remaining := by
  obtain ⟨h1, h2⟩ := refill_window s t h
  have h3 : t.unread ≤ s.unread := by
    simp only [unread, hs, List.length_nil]
    simp only [he]
    split <;> simp <;> omega
  simp only [remaining, h2]
  omega

theorem finish_remaining (s : Source) (row : Row) (field : List UInt8) (r : Row)
    (h : (s.finish row field).1 = .ok (some r)) :
    (s.finish row field).2.remaining < s.remaining := by
  unfold finish at h ⊢
  split at h
  · rename_i ho
    simp only [ho, remaining, unread]
    simp
    rfl
  · simp at h

/-- Reads on until a row ends, the text ends or something fails, given the
fields of the row and the bytes of the field so far, both last first. -/
def readOn (s : Source) (row : Row) (field : List UInt8) :
    Except InputError (Option Row) × Source :=
  match _hs : s.window with
  | b::rest =>
    match _hc : s.consume b rest with
    | (.skip, t) => t.readOn row field
    | (.byte c, t) => t.readOn row (c::field)
    | (.fieldEnd, t) =>
      match withField row t.line field with
      | .ok row => t.readOn row []
      | .error e => (.error e, t)
    | (.recordEnd, t) => ((withField row t.line field).map fun r => some r.reverse, t)
  | [] =>
    if _he : s.ended then s.finish row field
    else
      match _hr : s.refill? with
      | none => (.error .unreadable, { s with window := s.held })
      | some t => if _hw : t.window = [] then t.finish row field else t.readOn row field
termination_by s.unread
decreasing_by
  · have := consume_unread s b rest _hs
    simp only [_hc] at this
    omega
  · have := consume_unread s b rest _hs
    simp only [_hc] at this
    omega
  · have := consume_unread s b rest _hs
    simp only [_hc] at this
    omega
  · exact refill_unread s t _hr _hs (by simpa using _he) _hw

def readRow (s : Source) : Except InputError (Option Row) × Source :=
  if s.done then (.ok none, s) else s.readOn [] []

theorem readOn_remaining (s : Source) (row : Row) (field : List UInt8) (r : Row)
    (h : (s.readOn row field).1 = .ok (some r)) :
    (s.readOn row field).2.remaining < s.remaining := by
  fun_induction readOn s row field with
  | case1 s row field b rest hs t hc ih =>
    exact Nat.lt_of_lt_of_le (ih h) (consume_remaining s b rest hs hc)
  | case2 s row field b rest hs c t hc ih =>
    exact Nat.lt_of_lt_of_le (ih h) (consume_remaining s b rest hs hc)
  | case3 s row field b rest hs t hc row' hw ih =>
    exact Nat.lt_of_lt_of_le (ih h) (consume_remaining s b rest hs hc)
  | case4 => cases h
  | case5 s row field b rest hs t hc => exact recordEnd_remaining s b rest hs hc
  | case6 s row field hs he => exact finish_remaining s row field r h
  | case7 => cases h
  | case8 s row field hs he t hr hw =>
    exact Nat.lt_of_lt_of_le (finish_remaining t row field r h) (refill_remaining s t hr hs he)
  | case9 s row field hs he t hr hw ih =>
    exact Nat.lt_of_lt_of_le (ih h) (refill_remaining s t hr hs he)

theorem readRow_remaining (s : Source) (r : Row) (h : s.readRow.1 = .ok (some r)) :
    s.readRow.2.remaining < s.remaining := by
  unfold readRow at h ⊢
  split
  · simp_all
  · rename_i hd
    simp only [hd] at h
    exact readOn_remaining s [] [] r h

theorem readOn_peeked (s : Source) (row : Row) (field : List UInt8) :
    (s.readOn row field).2.peeked = s.peeked := by
  have hc : ∀ (s : Source) (b : UInt8) (rest : List UInt8) {e : Event} {t : Source},
      s.consume b rest = (e, t) → t.peeked = s.peeked := by
    intro s b rest e t h
    simp only [consume, Prod.mk.injEq] at h
    rw [← h.2]
  have hr : ∀ (s t : Source), s.refill? = some t → t.peeked = s.peeked := by
    intro s t h
    unfold refill? at h
    split at h
    · cases h
    · simp only [Option.some.injEq] at h
      rw [← h]
  have hf : ∀ (s : Source) (row : Row) (field : List UInt8),
      (s.finish row field).2.peeked = s.peeked := by
    intro s row field
    unfold finish
    split <;> rfl
  fun_induction readOn s row field with
  | case1 s row field b rest hs t h ih => rw [ih, hc s b rest h]
  | case2 s row field b rest hs c t h ih => rw [ih, hc s b rest h]
  | case3 s row field b rest hs t h row' hw ih => rw [ih, hc s b rest h]
  | case4 s row field b rest hs t h => exact hc s b rest h
  | case5 s row field b rest hs t h => exact hc s b rest h
  | case6 s row field => exact hf s row field
  | case7 => rfl
  | case8 s row field hs he t h => rw [hf, hr s t h]
  | case9 s row field hs he t h hw ih => rw [ih, hr s t h]

theorem readRow_peeked (s : Source) : s.readRow.2.peeked = s.peeked := by
  unfold readRow
  split
  · rfl
  · exact readOn_peeked s [] []

def readHeader (s : Source) : Except InputError Unit × Source :=
  match s.readRow with
  | (.error e, s) => (.error e, s)
  | (.ok first, s) =>
    if s.hasHeader then
      let s := { s with columns := first.getD [], peeked := none }
      match s.readRow with
      | (.error e, s) => (.error e, s)
      | (.ok peeked, s) => (.ok (), { s with peeked })
    else
      let count := (first.map List.length).getD 0
      (.ok (), { s with peeked := first, columns := (List.range count).map toString })

def unopened (name : String) (delimiter : UInt8) (hasHeader : Bool) (supply : Supply) : Source :=
  { name, delimiter, hasHeader, supply
    ahead := supply.bytes
    offset := 0
    held := []
    window := []
    isFresh := true
    ended := false
    done := false
    place := .recordStart
    line := 1
    columns := []
    peeked := none }

def open? (name : String) (delimiter : UInt8) (hasHeader : Bool) (supply : Supply) :
    Except InputError Source :=
  match (unopened name delimiter hasHeader supply).readHeader with
  | (.ok (), s) => .ok s
  | (.error e, _) => .error e

def hasNext (s : Source) : Except InputError Bool × Source :=
  match s.peeked with
  | some _ => (.ok true, s)
  | none =>
    match s.readRow with
    | (.error e, s) => (.error e, s)
    | (.ok peeked, s) => (.ok peeked.isSome, { s with peeked })

def next (s : Source) : Except InputError (Option Row) × Source :=
  match s.peeked with
  | some row => (.ok (some row), { s with peeked := none })
  | none => s.readRow

/-- Starts over from the beginning of the text. The names of the columns stay
until they have been read again. -/
def reset (s : Source) : Except InputError Unit × Source :=
  { unopened s.name s.delimiter s.hasHeader s.supply with columns := s.columns }.readHeader

end Source

end MatchingDependencies.Delimited
