import MatchingDependencies.Proofs.Delimited.Calls

/-!
# How a text arrives does not matter

`arrived` puts together what is left of the last piece and what is still to
come. Reading a row, the header or the next row commutes with it as long as no
read fails, so two sources of one text give the same answers to the same
calls, wherever their pieces are cut.

A byte order mark is the exception: it is dropped only if the first piece holds
all of it.
-/

set_option autoImplicit false

namespace MatchingDependencies.Delimited

namespace Source

/-- The source once all of its text has arrived. -/
def arrived (s : Source) : Source :=
  { s with
    supply := .whole s.supply.bytes
    ahead := []
    offset := s.supply.bytes.length
    held := []
    window := s.window ++ s.ahead
    isFresh := false
    ended := true }

@[simp] theorem arrived_place (s : Source) : s.arrived.place = s.place := rfl

@[simp] theorem arrived_line (s : Source) : s.arrived.line = s.line := rfl

@[simp] theorem arrived_done (s : Source) : s.arrived.done = s.done := rfl

@[simp] theorem arrived_peeked (s : Source) : s.arrived.peeked = s.peeked := rfl

@[simp] theorem arrived_hasHeader (s : Source) : s.arrived.hasHeader = s.hasHeader := rfl

def Flows (bytes : List UInt8) (limit : Nat → Nat) : Prop :=
  ∀ position, position < bytes.length → 0 < limit position

/-- A source of a text without a byte order mark, what is ahead of which is the
rest of the text. No read fails. -/
structure Steady (bytes : List UInt8) (s : Source) : Prop where
  text : s.supply.bytes = bytes
  unmarked : ¬byteOrderMark <+: bytes
  unfailing : s.supply.failAt = none
  flows : Flows bytes s.supply.limit
  ahead : s.ahead = bytes.drop s.offset
  fresh : s.isFresh = true → s.offset = 0
  ended : s.ended = true → s.ahead = []

variable {bytes : List UInt8} {s t : Source}

/-! ## Pieces -/

theorem Steady.congr (h : s.Steady bytes) (supply : t.supply = s.supply) (ahead : t.ahead = s.ahead)
    (offset : t.offset = s.offset) (fresh : t.isFresh = s.isFresh) (ended : t.ended = s.ended) :
    t.Steady bytes := by
  constructor
  · rw [supply]; exact h.text
  · exact h.unmarked
  · rw [supply]; exact h.unfailing
  · rw [supply]; exact h.flows
  · rw [ahead, offset]; exact h.ahead
  · rw [fresh, offset]; exact h.fresh
  · rw [ended, ahead]; exact h.ended

theorem Steady.supply_eq (h : s.Steady bytes) : s.supply = ⟨bytes, s.supply.limit, none⟩ := by
  rw [← h.text, ← h.unfailing]

theorem refilled_ahead (ahead : s.ahead = s.supply.bytes.drop s.offset) :
    s.refilled.ahead = s.supply.bytes.drop s.refilled.offset := by
  simp only [refilled]
  rw [List.length_take, ← List.drop_drop, ← ahead, ← List.drop_eq_drop_min]

theorem take_allowance_eq_nil (flows : Flows s.supply.bytes s.supply.limit)
    (ahead : s.ahead = s.supply.bytes.drop s.offset) (readable : s.supply.failAt ≠ some s.offset)
    (none : s.ahead.take s.allowance = []) : s.ahead = [] := by
  rcases List.take_eq_nil_iff.mp none with zero | nil
  · rw [ahead, List.drop_eq_nil_iff]
    apply Nat.le_of_not_lt
    intro inside
    have positive := flows _ inside
    cases fails : s.supply.failAt with
    | none =>
      simp only [allowance, fails, bufferSize] at zero
      omega
    | some position =>
      have apart : position ≠ s.offset := fun same => readable (fails.trans (congrArg some same))
      simp only [allowance, fails, bufferSize] at zero
      split at zero <;> omega
  · exact nil

theorem Steady.take_eq_nil (h : s.Steady bytes) (none : s.ahead.take s.allowance = []) :
    s.ahead = [] := by
  apply take_allowance_eq_nil _ _ _ none
  · rw [h.text]; exact h.flows
  · rw [h.text]; exact h.ahead
  · simp [h.unfailing]

theorem Steady.refill (h : s.Steady bytes) (empty : s.window = []) :
    ∃ t, s.refill? = some t ∧ t.Steady bytes ∧ t.arrived = s.arrived ∧
      (t.window = [] → t.ahead = []) := by
  have unmarked : ¬(s.isFresh && byteOrderMark.isPrefixOf (s.ahead.take s.allowance)) = true := by
    intro marked
    rw [Bool.and_eq_true, List.isPrefixOf_iff_prefix] at marked
    have start := h.ahead
    rw [h.fresh marked.1, List.drop_zero] at start
    exact h.unmarked (start ▸ marked.2.trans (List.take_prefix _ _))
  have drained : s.ahead.take s.allowance = [] → s.ahead.drop s.allowance = [] := by
    intro none
    rw [h.take_eq_nil none, List.drop_nil]
  simp only [refill?, h.unfailing, reduceCtorEq, if_false, if_neg unmarked]
  refine ⟨_, rfl, ?_, by simp [arrived, empty], drained⟩
  constructor
  · exact h.text
  · exact h.unmarked
  · exact h.unfailing
  · exact h.flows
  · have rest := refilled_ahead (s := s) (by rw [h.text]; exact h.ahead)
    rw [h.text] at rest
    exact rest
  · exact fun fresh => nomatch fresh
  · exact fun ended => drained (List.isEmpty_iff.mp ended)

/-! ## Rows -/

def Indifferent {α : Type} (bytes : List UInt8) (ask : Source → α × Source) : Prop :=
  ∀ s : Source, s.Steady bytes →
    (ask s).2.Steady bytes ∧ ask s.arrived = ((ask s).1, (ask s).2.arrived)

theorem consume_indifferent {b : UInt8} {rest : List UInt8} {e : Event} (h : s.Steady bytes)
    (eq : s.consume b rest = (e, t)) :
    t.Steady bytes ∧ s.arrived.consume b (rest ++ s.ahead) = (e, t.arrived) := by
  obtain ⟨rfl, rfl⟩ := Prod.mk.inj eq
  exact ⟨h.congr rfl rfl rfl rfl rfl, rfl⟩

theorem finish_indifferent (row : Row) (field : List UInt8) :
    Indifferent bytes fun s => s.finish row field := by
  intro s h
  by_cases opened : s.place.isOpen = true
  · simp only [finish, arrived_place, opened, if_true]
    exact ⟨h.congr rfl rfl rfl rfl rfl, rfl⟩
  · simp only [finish, arrived_place, opened]
    exact ⟨h.congr rfl rfl rfl rfl rfl, rfl⟩

theorem arrived_window {b : UInt8} {rest : List UInt8} (h : s.window = b::rest) :
    s.arrived.window = b::(rest ++ s.ahead) := by
  rw [arrived, h, List.cons_append]

theorem arrived_readOn_of_nil (window : s.window = []) (ahead : s.ahead = []) (row : Row)
    (field : List UInt8) : s.arrived.readOn row field = s.arrived.finish row field :=
  readOn_of_ended (by rw [arrived, window, ahead, List.append_nil]) rfl row field

theorem readOn_indifferent (row : Row) (field : List UInt8) :
    Indifferent bytes fun s => s.readOn row field := by
  intro s h
  change (s.readOn row field).2.Steady bytes ∧
    s.arrived.readOn row field = ((s.readOn row field).1, (s.readOn row field).2.arrived)
  fun_induction readOn s row field with
  | case1 s row field b rest hs t hc ih =>
    obtain ⟨steady, same⟩ := consume_indifferent h hc
    rw [readOn_of_cons (arrived_window hs), same]
    exact ih steady
  | case2 s row field b rest hs c t hc ih =>
    obtain ⟨steady, same⟩ := consume_indifferent h hc
    rw [readOn_of_cons (arrived_window hs), same]
    exact ih steady
  | case3 s row field b rest hs t hc row' hw ih =>
    obtain ⟨steady, same⟩ := consume_indifferent h hc
    rw [readOn_of_cons (arrived_window hs), same]
    simp only [arrived_line, hw]
    exact ih steady
  | case4 s row field b rest hs t hc e hw =>
    obtain ⟨steady, same⟩ := consume_indifferent h hc
    rw [readOn_of_cons (arrived_window hs), same]
    simp only [arrived_line, hw]
    exact ⟨steady, trivial⟩
  | case5 s row field b rest hs t hc =>
    obtain ⟨steady, same⟩ := consume_indifferent h hc
    rw [readOn_of_cons (arrived_window hs), same]
    exact ⟨steady, rfl⟩
  | case6 s row field hs he =>
    rw [arrived_readOn_of_nil hs (h.ended he)]
    exact finish_indifferent row field s h
  | case7 s row field hs he hr =>
    -- No read fails.
    obtain ⟨t, ht, -⟩ := h.refill hs
    rw [hr] at ht
    cases ht
  | case8 s row field hs he t hr hw =>
    obtain ⟨t', ht, steady, same, drained⟩ := h.refill hs
    obtain rfl := Option.some.inj (hr.symm.trans ht)
    -- An empty piece is the end of the text, so nothing is ahead either.
    rw [← same, arrived_readOn_of_nil hw (drained hw)]
    exact finish_indifferent row field t steady
  | case9 s row field hs he t hr hw ih =>
    obtain ⟨t', ht, steady, same, -⟩ := h.refill hs
    obtain rfl := Option.some.inj (hr.symm.trans ht)
    rw [← same]
    exact ih steady

theorem readRow_indifferent : Indifferent bytes readRow := by
  intro s h
  by_cases done : s.done = true
  · simp only [readRow, arrived_done, done, if_true]
    exact ⟨h, trivial⟩
  · simp only [readRow, arrived_done, done]
    exact readOn_indifferent [] [] s h

/-! ## The header and the row read in advance -/

theorem headed_arrived (s : Source) (columns : Row) (peeked : Option Row) :
    s.arrived.headed columns peeked = (s.headed columns peeked).arrived := rfl

theorem Steady.headed (h : s.Steady bytes) (columns : Row) (peeked : Option Row) :
    (s.headed columns peeked).Steady bytes :=
  h.congr rfl rfl rfl rfl rfl

theorem readHeader_indifferent : Indifferent bytes readHeader := by
  intro s h
  obtain ⟨steady, same⟩ := readRow_indifferent s h
  rw [readHeader_eq, readHeader_eq, same]
  clear same
  generalize s.readRow = answer at steady ⊢
  obtain ⟨e | first, t⟩ := answer
  · exact ⟨steady, rfl⟩
  · by_cases header : t.hasHeader = true
    · obtain ⟨steady, same⟩ := readRow_indifferent _ (steady.headed (first.getD []) none)
      simp only [arrived_hasHeader, header, if_true, headed_arrived, same]
      clear same
      generalize (t.headed (first.getD []) none).readRow = answer at steady ⊢
      obtain ⟨e | peeked, u⟩ := answer
      · exact ⟨steady, rfl⟩
      · exact ⟨steady.headed _ _, rfl⟩
    · simp only [arrived_hasHeader, header]
      exact ⟨steady.headed _ _, rfl⟩

theorem hasNext_indifferent : Indifferent bytes hasNext := by
  intro s h
  obtain ⟨steady, same⟩ := readRow_indifferent s h
  simp only [hasNext, arrived_peeked, same]
  split
  · exact ⟨h, rfl⟩
  · clear same
    generalize s.readRow = answer at steady ⊢
    obtain ⟨e | peeked, t⟩ := answer
    · exact ⟨steady, rfl⟩
    · exact ⟨steady.congr rfl rfl rfl rfl rfl, rfl⟩

theorem next_indifferent : Indifferent bytes next := by
  intro s h
  simp only [next, arrived_peeked]
  split
  · exact ⟨h.congr rfl rfl rfl rfl rfl, rfl⟩
  · exact readRow_indifferent s h

/-! ## Calls -/

def paced (s : Source) (limit : Nat → Nat) : Source :=
  { s with supply := { s.supply with limit } }

/-- The answers to calls one after the other, each with the names that the
columns have afterwards. A call that fails is answered too. The pace gives the
sizes of the pieces that arrive during each call. -/
def transcript (s : Source) (pace : Nat → Nat → Nat) : List Call → List (Answer × Row)
  | [] => []
  | call::calls =>
    let asked := (s.paced (pace 0)).ask call
    (asked.1, asked.2.columns) :: asked.2.transcript (fun n => pace (n+1)) calls

def session (name : String) (delimiter : UInt8) (hasHeader : Bool) (bytes : List UInt8)
    (pace : Nat → Nat → Nat) (calls : List Call) : Except InputError (Row × List (Answer × Row)) :=
  (open? name delimiter hasHeader ⟨bytes, pace 0, none⟩).map fun s =>
    (s.columns, s.transcript (fun n => pace (n+1)) calls)

structure Alike (bytes : List UInt8) (s t : Source) : Prop where
  left : s.Steady bytes
  right : t.Steady bytes
  same : s.arrived = t.arrived

theorem Indifferent.alike {α : Type} {ask : Source → α × Source} (h : Indifferent bytes ask)
    (alike : Alike bytes s t) : (ask s).1 = (ask t).1 ∧ Alike bytes (ask s).2 (ask t).2 := by
  obtain ⟨left, sameLeft⟩ := h s alike.left
  obtain ⟨right, sameRight⟩ := h t alike.right
  rw [alike.same, sameRight] at sameLeft
  obtain ⟨answers, states⟩ := Prod.mk.inj sameLeft
  exact ⟨answers.symm, left, right, states.symm⟩

namespace Alike

theorem columns (h : Alike bytes s t) : s.columns = t.columns := congrArg (·.columns) h.same

theorem headed (h : Alike bytes s t) (columns : Row) (peeked : Option Row) :
    Alike bytes (s.headed columns peeked) (t.headed columns peeked) := by
  refine ⟨h.left.headed columns peeked, h.right.headed columns peeked, ?_⟩
  rw [← headed_arrived, h.same, headed_arrived]

theorem paced (h : Alike bytes s t) {p q : Nat → Nat} (hp : Flows bytes p) (hq : Flows bytes q) :
    Alike bytes (s.paced p) (t.paced q) where
  left := { h.left with flows := hp }
  right := { h.right with flows := hq }
  same := h.same

theorem unopened (name : String) (delimiter : UInt8) (hasHeader : Bool)
    (unmarked : ¬byteOrderMark <+: bytes) {p q : Nat → Nat} (hp : Flows bytes p)
    (hq : Flows bytes q) :
    Alike bytes (unopened name delimiter hasHeader ⟨bytes, p, none⟩)
      (unopened name delimiter hasHeader ⟨bytes, q, none⟩) where
  left := ⟨rfl, unmarked, rfl, hp, rfl, fun _ => rfl, fun ended => nomatch ended⟩
  right := ⟨rfl, unmarked, rfl, hq, rfl, fun _ => rfl, fun ended => nomatch ended⟩
  same := rfl

end Alike

theorem Alike.reset (h : Alike bytes s t) :
    s.reset.1 = t.reset.1 ∧ Alike bytes s.reset.2 t.reset.2 := by
  have name : s.name = t.name := congrArg (·.name) h.same
  have delimiter : s.delimiter = t.delimiter := congrArg (·.delimiter) h.same
  have hasHeader : s.hasHeader = t.hasHeader := congrArg (·.hasHeader) h.same
  have rewound := Alike.unopened s.name s.delimiter s.hasHeader h.left.unmarked h.left.flows
    h.right.flows
  rw [reset_eq, reset_eq, ← name, ← delimiter, ← hasHeader, ← h.columns, h.left.supply_eq,
    h.right.supply_eq]
  exact readHeader_indifferent.alike (rewound.headed s.columns none)

theorem Alike.ask (h : Alike bytes s t) (call : Call) :
    (s.ask call).1 = (t.ask call).1 ∧ Alike bytes (s.ask call).2 (t.ask call).2 := by
  cases call with
  | hasNext =>
    obtain ⟨answers, states⟩ := hasNext_indifferent.alike h
    exact ⟨congrArg Answer.found answers, states⟩
  | next =>
    obtain ⟨answers, states⟩ := next_indifferent.alike h
    exact ⟨congrArg Answer.row answers, states⟩
  | reset =>
    obtain ⟨answers, states⟩ := h.reset
    exact ⟨congrArg Answer.restarted answers, states⟩

theorem Alike.transcript (h : Alike bytes s t) {p q : Nat → Nat → Nat}
    (hp : ∀ n, Flows bytes (p n)) (hq : ∀ n, Flows bytes (q n)) (calls : List Call) :
    s.transcript p calls = t.transcript q calls := by
  induction calls generalizing s t p q with
  | nil => rfl
  | cons call calls ih =>
    obtain ⟨answers, states⟩ := (h.paced (hp 0) (hq 0)).ask call
    have later := ih states (fun n => hp (n+1)) (fun n => hq (n+1))
    simp only [Source.transcript, answers, states.columns, later]

/-- A source of a text opens alike and answers every sequence of calls alike,
whatever the pieces are in which the text arrives. -/
theorem session_arrival (name : String) (delimiter : UInt8) (hasHeader : Bool)
    {bytes : List UInt8} (unmarked : ¬byteOrderMark <+: bytes) {p q : Nat → Nat → Nat}
    (hp : ∀ n, Flows bytes (p n)) (hq : ∀ n, Flows bytes (q n)) (calls : List Call) :
    session name delimiter hasHeader bytes p calls =
      session name delimiter hasHeader bytes q calls := by
  obtain ⟨answers, states⟩ := readHeader_indifferent.alike
    (Alike.unopened name delimiter hasHeader unmarked (hp 0) (hq 0))
  have asked := states.transcript (fun n => hp (n+1)) (fun n => hq (n+1)) calls
  rw [session, session, open?_eq, open?_eq, answers]
  cases (Source.unopened name delimiter hasHeader ⟨bytes, q 0, none⟩).readHeader.1 with
  | error e => rfl
  | ok _ =>
    simp only [Except.map]
    rw [states.columns, asked]

/-- A quoted field with a letter of two bytes and a doubled quote, a line that
ends in two bytes, and a byte that is no text: one byte at a time, or pieces
that grow with every call. -/
theorem session_arrival_quoted :
    let bytes : List UInt8 :=
      [0x61, 0x0A, 0x22, 0xC3, 0xA9, 0x22, 0x22, 0x22, 0x0D, 0x0A, 0xFF, 0x0A, 0x62]
    let single : Nat → Nat → Nat := fun _ _ => 1
    let growing : Nat → Nat → Nat := fun n _ => n+1
    let calls : List Call := [.next, .hasNext, .next, .reset, .next]
    ¬byteOrderMark <+: bytes ∧ (∀ n, Flows bytes (single n)) ∧ (∀ n, Flows bytes (growing n)) ∧
      session "t" 0x2C true bytes single calls = session "t" 0x2C true bytes growing calls := by
  intro bytes single growing calls
  have unmarked : ¬byteOrderMark <+: bytes := by decide
  have hs : ∀ n, Flows bytes (single n) := fun _ _ _ => Nat.one_pos
  have hg : ∀ n, Flows bytes (growing n) := fun n _ _ => Nat.succ_pos n
  exact ⟨unmarked, hs, hg, session_arrival "t" 0x2C true unmarked hs hg calls⟩

end Source

end MatchingDependencies.Delimited
