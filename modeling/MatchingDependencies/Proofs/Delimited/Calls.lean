import MatchingDependencies.Delimited.Source

/-!
# Calls to a source of delimited text

What reading a row comes to at a byte and at the end of the text, and the
calls by which a source is opened, asked and set back, in terms of it.
-/

set_option autoImplicit false

namespace MatchingDependencies.Delimited

namespace Source

/-! ## Reading -/

section Reading

variable {s t : Source}

def refilled (s : Source) : Source :=
  let piece := s.ahead.take s.allowance
  { s with
    ahead := s.ahead.drop s.allowance
    offset := s.offset + piece.length
    held := piece
    window := if s.isFresh && byteOrderMark.isPrefixOf piece then piece.drop 3 else piece
    isFresh := false
    ended := piece.isEmpty }

theorem refill_eq_none_iff : s.refill? = none ↔ s.supply.failAt = some s.offset := by
  unfold refill?
  split <;> simp_all

theorem refill_eq_some_iff :
    s.refill? = some t ↔ s.supply.failAt ≠ some s.offset ∧ s.refilled = t := by
  unfold refill?
  split
  · simp_all
  · simp_all [refilled]

theorem readOn_of_cons {b : UInt8} {rest : List UInt8} (h : s.window = b::rest) (row : Row)
    (field : List UInt8) :
    s.readOn row field =
      match s.consume b rest with
      | (.skip, t) => t.readOn row field
      | (.byte c, t) => t.readOn row (c::field)
      | (.fieldEnd, t) =>
        match withField row t.line field with
        | .ok row => t.readOn row []
        | .error e => (.error e, t)
      | (.recordEnd, t) => ((withField row t.line field).map fun r => some r.reverse, t) := by
  rw [readOn]
  split
  · next eq =>
    obtain ⟨rfl, rfl⟩ := List.cons.inj (h.symm.trans eq)
    split
    · next hc => rw [hc]
    · next hc => rw [hc]
    · next t hc => cases read : withField row t.line field <;> simp only [hc, read]
    · next hc => rw [hc]
  · simp_all

theorem readOn_of_ended (empty : s.window = []) (ended : s.ended = true) (row : Row)
    (field : List UInt8) : s.readOn row field = s.finish row field := by
  rw [readOn]
  split <;> simp_all

theorem readOn_of_empty (empty : s.window = []) (going : s.ended = false) (row : Row)
    (field : List UInt8) :
    s.readOn row field =
      match s.refill? with
      | none => (.error .unreadable, { s with window := s.held })
      | some t => if t.window = [] then t.finish row field else t.readOn row field := by
  rw [readOn]
  split
  · simp_all
  · rw [dif_neg (by simp [going])]
    split
    · next hr => rw [hr]
    · next t hr =>
      rw [hr]
      by_cases nothing : t.window = []
      · rw [dif_pos nothing]
        simp only [nothing, if_true]
      · rw [dif_neg nothing]
        simp only [nothing, if_false]

end Reading

/-! ## Opening and setting back -/

def headed (s : Source) (columns : Row) (peeked : Option Row) : Source := { s with columns, peeked }

theorem readHeader_eq (s : Source) :
    s.readHeader =
      match s.readRow with
      | (.error e, t) => (.error e, t)
      | (.ok first, t) =>
        if t.hasHeader then
          match (t.headed (first.getD []) none).readRow with
          | (.error e, u) => (.error e, u)
          | (.ok peeked, u) => (.ok (), u.headed u.columns peeked)
        else
          (.ok (), t.headed ((List.range ((first.map List.length).getD 0)).map toString) first) :=
  rfl

theorem open?_eq (name : String) (delimiter : UInt8) (hasHeader : Bool) (supply : Supply) :
    open? name delimiter hasHeader supply =
      (unopened name delimiter hasHeader supply).readHeader.1.map fun _ =>
        (unopened name delimiter hasHeader supply).readHeader.2 := by
  rw [open?]
  rcases (unopened name delimiter hasHeader supply).readHeader with ⟨_ | _, _⟩ <;> rfl

theorem reset_eq (s : Source) :
    s.reset =
      ((unopened s.name s.delimiter s.hasHeader s.supply).headed s.columns none).readHeader := rfl

/-! ## Calls -/

inductive Call where
  | hasNext
  | next
  | reset

inductive Answer where
  | found (answer : Except InputError Bool)
  | row (answer : Except InputError (Option Row))
  | restarted (answer : Except InputError Unit)

def ask (s : Source) : Call → Answer × Source
  | .hasNext => (.found s.hasNext.1, s.hasNext.2)
  | .next => (.row s.next.1, s.next.2)
  | .reset => (.restarted s.reset.1, s.reset.2)

def failsToRead {α : Type} : Except InputError α → Bool
  | .error .unreadable => true
  | _ => false

def Answer.isUnreadable : Answer → Bool
  | .found answer => failsToRead answer
  | .row answer => failsToRead answer
  | .restarted answer => failsToRead answer

theorem ask_cases (s : Source) {call : Call} (onward : call ≠ .reset) :
    (∃ row peeked, s.peeked = some row ∧ (s.ask call).2 = s.headed s.columns peeked ∧
      (s.ask call).1.isUnreadable = false) ∨
    ∃ peeked, s.peeked = none ∧ (s.ask call).2 = s.readRow.2.headed s.readRow.2.columns peeked ∧
      (s.ask call).1.isUnreadable = failsToRead s.readRow.1 := by
  have untouched := s.readRow_peeked
  cases call with
  | hasNext =>
    cases held : s.peeked with
    | some row =>
      have asked : s.ask .hasNext = (.found (.ok true), s) := by simp [ask, hasNext, held]
      rw [asked]
      exact .inl ⟨row, s.peeked, rfl, rfl, rfl⟩
    | none =>
      generalize read : s.readRow = answer at untouched
      obtain ⟨e | peeked, t⟩ := answer
      · have asked : s.ask .hasNext = (.found (.error e), t) := by simp [ask, hasNext, held, read]
        rw [asked]
        exact .inr ⟨t.peeked, rfl, rfl, by cases e <;> rfl⟩
      · have asked : s.ask .hasNext =
            (.found (.ok peeked.isSome), t.headed t.columns peeked) := by
          simp [ask, hasNext, held, read, headed]
        rw [asked]
        exact .inr ⟨peeked, rfl, rfl, rfl⟩
  | next =>
    cases held : s.peeked with
    | some row =>
      have asked : s.ask .next = (.row (.ok (some row)), s.headed s.columns none) := by
        simp [ask, next, held, headed]
      rw [asked]
      exact .inl ⟨row, none, rfl, rfl, rfl⟩
    | none =>
      have asked : s.ask .next = (.row s.readRow.1, s.readRow.2) := by simp [ask, next, held]
      rw [asked]
      exact .inr ⟨s.readRow.2.peeked, rfl, rfl, rfl⟩
  | reset => exact absurd rfl onward

def after (s : Source) : List Call → Source
  | [] => s
  | call::calls => (s.ask call).2.after calls

def replies (s : Source) : List Call → List (Answer × Row)
  | [] => []
  | call::calls => ((s.ask call).1, (s.ask call).2.columns) :: (s.ask call).2.replies calls

theorem after_append (s : Source) (calls more : List Call) :
    s.after (calls ++ more) = (s.after calls).after more := by
  induction calls generalizing s with
  | nil => rfl
  | cons call calls ih => exact ih _

theorem replies_append (s : Source) (calls more : List Call) :
    s.replies (calls ++ more) = s.replies calls ++ (s.after calls).replies more := by
  induction calls generalizing s with
  | nil => rfl
  | cons call calls ih => simp only [List.cons_append, replies, after, ih]

end Source

end MatchingDependencies.Delimited
