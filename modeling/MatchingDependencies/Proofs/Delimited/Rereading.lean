import MatchingDependencies.Proofs.Delimited.Outcomes

/-!
# What is read again

As long as no read fails, the bytes that a source looks at one after the other
are its text. A read that fails puts the last piece back, which has been looked
at already, and the text does not go on: the piece is looked at again, once for
every read that fails.
-/

set_option autoImplicit false

namespace MatchingDependencies.Delimited

namespace Source

/-! ## What is looked at -/

def seenOn (s : Source) (row : Row) (field : List UInt8) : List UInt8 :=
  match _hs : s.window with
  | b::rest =>
    b :: match _hc : s.consume b rest with
      | (.skip, t) => t.seenOn row field
      | (.byte c, t) => t.seenOn row (c::field)
      | (.fieldEnd, t) =>
        match withField row t.line field with
        | .ok row => t.seenOn row []
        | .error _ => []
      | (.recordEnd, _) => []
  | [] =>
    if _he : s.ended then []
    else
      match _hr : s.refill? with
      | none => []
      | some t => if _hw : t.window = [] then [] else t.seenOn row field
termination_by s.unread
decreasing_by
  · have := consume_unread s b rest _hs
    simp only [_hc] at this
    omega
  · have := consume_unread s b rest _hs
    simp only [_hc] at this
    omega
  · have := consume_unread s b rest _hs
    simp only [_hc] at this
    omega
  · exact refill_unread s t _hr _hs (by simpa using _he) _hw

def seenRow (s : Source) : List UInt8 := if s.done then [] else s.seenOn [] []

def seenHeader (s : Source) : List UInt8 :=
  s.seenRow ++
    match s.readRow with
    | (.error _, _) => []
    | (.ok first, t) => if t.hasHeader then (t.headed (first.getD []) none).seenRow else []

def seenBy (s : Source) : Call → List UInt8
  | .reset => (unopened s.name s.delimiter s.hasHeader s.supply).seenHeader
  | _ => if s.peeked.isSome then [] else s.seenRow

def seen (s : Source) : List Call → List UInt8
  | [] => []
  | call::calls => s.seenBy call ++ (s.ask call).2.seen calls

def failures (replies : List (Answer × Row)) : Nat := replies.countP (·.1.isUnreadable)

variable {s t u : Source} {row : Row} {field : List UInt8}

theorem seenOn_of_cons {b : UInt8} {rest : List UInt8} (h : s.window = b::rest) (row : Row)
    (field : List UInt8) :
    s.seenOn row field = b ::
      match s.consume b rest with
      | (.skip, t) => t.seenOn row field
      | (.byte c, t) => t.seenOn row (c::field)
      | (.fieldEnd, t) =>
        match withField row t.line field with
        | .ok row => t.seenOn row []
        | .error _ => []
      | (.recordEnd, _) => [] := by
  rw [seenOn]
  split
  · next eq =>
    obtain ⟨rfl, rfl⟩ := List.cons.inj (h.symm.trans eq)
    split
    · next hc => rw [hc]
    · next hc => rw [hc]
    · next t hc => cases read : withField row t.line field <;> simp only [hc, read]
    · next hc => rw [hc]
  · simp_all

theorem seenOn_of_ended (empty : s.window = []) (ended : s.ended = true) (row : Row)
    (field : List UInt8) : s.seenOn row field = [] := by
  rw [seenOn]
  split <;> simp_all

theorem seenOn_of_empty (empty : s.window = []) (going : s.ended = false) (row : Row)
    (field : List UInt8) :
    s.seenOn row field =
      match s.refill? with
      | none => []
      | some t => if t.window = [] then [] else t.seenOn row field := by
  rw [seenOn]
  split
  · simp_all
  · rw [dif_neg (by simp [going])]
    split
    · next hr => rw [hr]
    · next t hr =>
      rw [hr]
      by_cases nothing : t.window = []
      · rw [dif_pos nothing]
        simp only [nothing, if_true]
      · rw [dif_neg nothing]
        simp only [nothing, if_false]

/-! ## Where the bytes come from -/

/-- From one source to another bytes were looked at and some reads failed. All
bytes that were looked at or are in the window arrived once, apart from the last
piece, which was put back by every read that failed. -/
structure Passes (s : Source) (bytes : List UInt8) (failures : Nat) (t : Source) : Prop where
  arrived : ∃ arrived, arrived ++ t.ahead = s.ahead ∧
    bytes ++ t.window = s.window ++ arrived ++ (List.replicate failures t.held).flatten
  piece : t.held ++ t.ahead <:+ s.held ++ s.ahead
  stuck : 0 < failures ∨ s.refill? = none → t.refill? = none
  stays : s.refill? = none → t.held = s.held ∧ t.ahead = s.ahead

theorem passes_of_eq (window : t.window = s.window) (ahead : t.ahead = s.ahead)
    (held : t.held = s.held) (supply : t.supply = s.supply) (offset : t.offset = s.offset) :
    s.Passes [] 0 t where
  arrived := ⟨[], by simp [ahead], by simp [window]⟩
  piece := by
    have same : t.held ++ t.ahead = s.held ++ s.ahead := by rw [held, ahead]
    exact same ▸ List.suffix_rfl
  stuck := by simp [refill_eq_none_iff, supply, offset]
  stays := fun _ => ⟨held, ahead⟩

/-- Once a read has failed there is but one piece. -/
theorem Passes.trans {front back : List UInt8} {m n : Nat} (first : s.Passes front m t)
    (second : t.Passes back n u) : s.Passes (front ++ back) (m+n) u where
  arrived := by
    obtain ⟨x, hx, seenFront⟩ := first.arrived
    obtain ⟨y, hy, seenBack⟩ := second.arrived
    refine ⟨x ++ y, by rw [List.append_assoc, hy, hx], ?_⟩
    cases m with
    | zero =>
      -- Nothing was put back so far: what arrives later stands behind what arrived before.
      rw [List.append_assoc, seenBack, ← List.append_assoc, ← List.append_assoc, seenFront]
      simp
    | succ m =>
      -- Nothing arrives any more, and both parts have put back the same piece.
      obtain ⟨held, ahead⟩ := second.stays (first.stuck (.inl m.succ_pos))
      obtain rfl : y = [] := by
        rw [ahead] at hy
        simpa using hy
      have split : (List.replicate (m+1+n) u.held).flatten =
          (List.replicate (m+1) t.held).flatten ++ (List.replicate n u.held).flatten := by
        rw [held, ← List.flatten_append, List.replicate_append_replicate]
      rw [List.append_assoc, seenBack, ← List.append_assoc, ← List.append_assoc, seenFront, split]
      simp only [List.append_assoc, List.append_nil]
  piece := second.piece.trans first.piece
  stuck := by
    rintro (some | none)
    · cases m with
      | zero => exact second.stuck (.inl (by omega))
      | succ m => exact second.stuck (.inr (first.stuck (.inl m.succ_pos)))
    · exact second.stuck (.inr (first.stuck (.inr none)))
  stays := by
    intro none
    obtain ⟨held, ahead⟩ := first.stays none
    obtain ⟨held', ahead'⟩ := second.stays (first.stuck (.inr none))
    exact ⟨held'.trans held, ahead'.trans ahead⟩

theorem passes_consume {b : UInt8} {rest : List UInt8} {e : Event} (window : s.window = b::rest)
    (hc : s.consume b rest = (e, t)) : s.Passes [b] 0 t := by
  obtain ⟨-, rfl⟩ := Prod.mk.inj hc
  constructor
  · exact ⟨[], rfl, by simp [window]⟩
  · exact List.suffix_rfl
  · simp [refill_eq_none_iff]
  · exact fun _ => ⟨rfl, rfl⟩

theorem passes_finish (s : Source) (row : Row) (field : List UInt8) :
    s.Passes [] 0 (s.finish row field).2 := by
  unfold finish
  split <;> exact passes_of_eq rfl rfl rfl rfl rfl

theorem Underway.passes_refill (h : s.Underway) (empty : s.window = [])
    (arrived : s.refill? = some t) : s.Passes [] 0 t := by
  obtain ⟨-, same, -⟩ := h.refill arrived
  constructor
  · exact ⟨t.window, same, by simp [empty]⟩
  · obtain ⟨-, rfl⟩ := refill_eq_some_iff.mp arrived
    have whole : s.refilled.held ++ s.refilled.ahead = s.ahead := List.take_append_drop _ _
    rw [whole]
    exact List.suffix_append _ _
  · simp [arrived]
  · simp [arrived]

theorem passes_fail (empty : s.window = []) (fails : s.refill? = none) :
    s.Passes [] 1 { s with window := s.held } where
  arrived := ⟨[], rfl, by simp [empty]⟩
  piece := List.suffix_rfl
  stuck _ := refill_eq_none_iff.mpr (refill_eq_none_iff.mp fails)
  stays _ := ⟨rfl, rfl⟩

theorem withField_reads (row : Row) (line : Nat) (field : List UInt8) :
    failsToRead ((withField row line field).map fun r => some r.reverse) = false := by
  rw [withField]
  cases Text.decode field.reverse <;> rfl

theorem finish_reads (s : Source) (row : Row) (field : List UInt8) :
    failsToRead (s.finish row field).1 = false := by
  unfold finish
  split
  · exact withField_reads row s.line field
  · rfl

theorem Underway.readOn_passes (h : s.Underway) (row : Row) (field : List UInt8) :
    s.Passes (s.seenOn row field) (failsToRead (s.readOn row field).1).toNat
      (s.readOn row field).2 := by
  fun_induction readOn s row field with
  | case1 s row field b rest hs t hc ih =>
    rw [seenOn_of_cons hs, hc]
    simpa using (passes_consume hs hc).trans (ih (h.consume hc))
  | case2 s row field b rest hs c t hc ih =>
    rw [seenOn_of_cons hs, hc]
    simpa using (passes_consume hs hc).trans (ih (h.consume hc))
  | case3 s row field b rest hs t hc row' hw ih =>
    rw [seenOn_of_cons hs, hc]
    simp only [hw]
    simpa using (passes_consume hs hc).trans (ih (h.consume hc))
  | case4 s row field b rest hs t hc e hw =>
    have readable := withField_reads row t.line field
    rw [hw, Except.map] at readable
    rw [seenOn_of_cons hs, hc, readable]
    simp only [hw]
    exact passes_consume hs hc
  | case5 s row field b rest hs t hc =>
    rw [seenOn_of_cons hs, hc, withField_reads]
    exact passes_consume hs hc
  | case6 s row field hs he =>
    rw [seenOn_of_ended hs he, finish_reads]
    exact passes_finish s row field
  | case7 s row field hs he hr =>
    -- The only step that counts as a failure, and the only one that does not go on.
    rw [seenOn_of_empty hs (Bool.not_eq_true _ ▸ he), hr]
    exact passes_fail hs hr
  | case8 s row field hs he t hr hw =>
    rw [seenOn_of_empty hs (Bool.not_eq_true _ ▸ he), hr, finish_reads]
    simp only [hw, if_true]
    exact (h.passes_refill hs hr).trans (passes_finish t row field)
  | case9 s row field hs he t hr hw ih =>
    rw [seenOn_of_empty hs (Bool.not_eq_true _ ▸ he), hr]
    simp only [hw, if_false]
    simpa using (h.passes_refill hs hr).trans (ih (h.refill hr).1)

theorem readOn_put_back (fails : failsToRead (s.readOn row field).1 = true) :
    (s.readOn row field).2.window = (s.readOn row field).2.held := by
  fun_induction readOn s row field with
  | case1 s row field b rest hs t hc ih => exact ih fails
  | case2 s row field b rest hs c t hc ih => exact ih fails
  | case3 s row field b rest hs t hc row' hw ih => exact ih fails
  | case4 s row field b rest hs t hc e hw =>
    have readable := withField_reads row t.line field
    rw [hw, Except.map] at readable
    simp [readable] at fails
  | case5 s row field b rest hs t hc => simp [withField_reads] at fails
  | case6 s row field => simp [finish_reads] at fails
  | case7 => rfl
  | case8 s row field hs he t => simp [finish_reads] at fails
  | case9 s row field hs he t hr hw ih => exact ih fails

theorem readRow_put_back (fails : failsToRead s.readRow.1 = true) :
    s.readRow.2.window = s.readRow.2.held := by
  unfold readRow at fails ⊢
  by_cases done : s.done = true
  · rw [if_pos done] at fails
    cases fails
  · rw [if_neg done] at fails ⊢
    exact readOn_put_back fails

theorem ask_put_back {call : Call} (onward : call ≠ .reset)
    (fails : (s.ask call).1.isUnreadable = true) : (s.ask call).2.window = (s.ask call).2.held := by
  rcases s.ask_cases onward with ⟨row, peeked, -, -, answered⟩ | ⟨peeked, -, after, answered⟩
  · rw [answered] at fails
    cases fails
  · rw [answered] at fails
    rw [after]
    exact readRow_put_back fails

theorem Underway.readRow_passes (h : s.Underway) :
    s.Passes s.seenRow (failsToRead s.readRow.1).toNat s.readRow.2 := by
  by_cases done : s.done = true
  · simp only [seenRow, Source.readRow, done, if_true]
    exact passes_of_eq rfl rfl rfl rfl rfl
  · simp only [seenRow, Source.readRow, done]
    exact h.readOn_passes [] []

theorem Passes.headed {bytes : List UInt8} {n : Nat} (h : s.Passes bytes n t) (columns : Row)
    (peeked : Option Row) : s.Passes bytes n (t.headed columns peeked) := by
  have same : t.Passes [] 0 (t.headed columns peeked) := passes_of_eq rfl rfl rfl rfl rfl
  simpa using h.trans same

theorem Underway.ask_passes (h : s.Underway) {call : Call} (onward : call ≠ .reset) :
    s.Passes (s.seenBy call) (s.ask call).1.isUnreadable.toNat (s.ask call).2 := by
  rcases s.ask_cases onward with
    ⟨row, peeked, held, after, answered⟩ | ⟨peeked, held, after, answered⟩
  · have none : s.seenBy call = [] := by cases call <;> simp [seenBy, held] at onward ⊢
    rw [none, after, answered]
    exact passes_of_eq rfl rfl rfl rfl rfl
  · have read : s.seenBy call = s.seenRow := by cases call <;> simp [seenBy, held] at onward ⊢
    rw [read, after, answered]
    exact h.readRow_passes.headed _ _

theorem Underway.passes (h : s.Underway) {calls : List Call}
    (onward : ∀ call ∈ calls, call ≠ .reset) :
    s.Passes (s.seen calls) (failures (s.replies calls)) (s.after calls) := by
  induction calls generalizing s with
  | nil => exact passes_of_eq rfl rfl rfl rfl rfl
  | cons call calls ih =>
    obtain ⟨first, others⟩ := List.forall_mem_cons.mp onward
    have count : failures (s.replies (call::calls)) =
        (s.ask call).1.isUnreadable.toNat + failures ((s.ask call).2.replies calls) := by
      rw [failures, replies, List.countP_cons, Nat.add_comm]
      cases (s.ask call).1.isUnreadable <;> rfl
    rw [count]
    exact (h.ask_passes first).trans (ih (h.ask first).1 others)

/-! ## Opening -/

variable {name : String} {delimiter : UInt8} {hasHeader : Bool} {supply : Supply}

theorem refill_passes (flows : Flows supply.bytes supply.limit)
    (arrived : (unopened name delimiter hasHeader supply).refill? = some t) :
    t.Passes (unopened name delimiter hasHeader supply).seenRow
      (failsToRead (unopened name delimiter hasHeader supply).readRow.1).toNat
      (unopened name delimiter hasHeader supply).readRow.2 := by
  have underway := underway_refill flows rfl arrived
  have seen : (unopened name delimiter hasHeader supply).seenRow =
      (unopened name delimiter hasHeader supply).seenOn [] [] := rfl
  have read : (unopened name delimiter hasHeader supply).readRow =
      (unopened name delimiter hasHeader supply).readOn [] [] := rfl
  rw [seen, read, seenOn_of_empty rfl rfl, readOn_of_empty rfl rfl, arrived]
  by_cases empty : t.window = []
  · simp only [empty, if_true, finish_reads]
    exact passes_finish t [] []
  · simp only [empty, if_false]
    exact underway.readOn_passes [] []

theorem opened_passes (flows : Flows supply.bytes supply.limit)
    (opened : open? name delimiter hasHeader supply = .ok s) :
    ∃ t, (unopened name delimiter hasHeader supply).refill? = some t ∧
      t.Passes (unopened name delimiter hasHeader supply).seenHeader 0 s := by
  have header := opened_iff.mp opened
  have hands := readRow_unopened name delimiter hasHeader flows
  rw [readHeader_eq] at header
  cases arrived : (unopened name delimiter hasHeader supply).refill? with
  | none =>
    have read : (unopened name delimiter hasHeader supply).readRow =
        (unopened name delimiter hasHeader supply).readOn [] [] := rfl
    rw [read, readOn_of_empty rfl rfl, arrived] at header
    cases header
  | some t =>
    have first := refill_passes flows arrived
    refine ⟨t, rfl, ?_⟩
    rw [seenHeader]
    generalize (unopened name delimiter hasHeader supply).readRow = asked at header hands first ⊢
    obtain ⟨e | names, u⟩ := asked
    · cases header
    have underway : u.Underway := by
      rcases hands with ⟨-, unread⟩ | ⟨-, underway⟩
      · cases unread
      · exact underway
    by_cases named : u.hasHeader = true
    · have second := (underway.headed (names.getD []) none).readRow_passes
      simp only [named, if_true] at header ⊢
      generalize (u.headed (names.getD []) none).readRow = asked at header second
      obtain ⟨e | peeked, v⟩ := asked
      · cases header
      · obtain ⟨-, rfl⟩ := Prod.mk.inj header
        exact (first.headed _ _).trans (second.headed _ _)
    · simp only [named, Bool.false_eq_true, if_false, List.append_nil] at header ⊢
      obtain ⟨-, rfl⟩ := Prod.mk.inj header
      exact first.headed _ _

/-! ## Rows as long as no read fails -/

def delivered (answers : List Answer) : List Row :=
  answers.filterMap fun
    | .row (.ok row) => row
    | _ => none

theorem delivered_served (all pending : List Outcome) {calls : List Call}
    (onward : ∀ call ∈ calls, call ≠ .reset) :
    delivered (served all pending calls) <+: pending.filterMap Except.toOption := by
  induction calls generalizing pending with
  | nil => exact List.nil_prefix
  | cons call calls ih =>
    obtain ⟨first, others⟩ := List.forall_mem_cons.mp onward
    have rest := fun pending => ih pending others
    cases call with
    | reset => exact absurd rfl first
    | next =>
      cases pending with
      | nil => exact rest []
      | cons outcome pending =>
        cases outcome with
        | error e => exact rest pending
        | ok row => exact (List.prefix_cons_inj row).mpr (rest pending)
    | hasNext =>
      cases pending with
      | nil => exact rest []
      | cons outcome pending =>
        cases outcome with
        | error e => exact rest pending
        | ok row => exact rest (.ok row :: pending)

theorem Underway.replies_serve (h : s.Underway) (all : List Outcome) {calls : List Call}
    (onward : ∀ call ∈ calls, call ≠ .reset) (readable : failures (s.replies calls) = 0) :
    s.replies calls = (served all s.pending calls).map fun answer => (answer, s.columns) := by
  induction calls generalizing s with
  | nil => rfl
  | cons call calls ih =>
    obtain ⟨first, others⟩ := List.forall_mem_cons.mp onward
    obtain ⟨going, columns⟩ := h.ask first
    rw [failures, replies, List.countP_cons] at readable
    obtain ⟨later, now⟩ := Nat.add_eq_zero_iff.mp readable
    have rest := ih going others later
    rcases h.ask_serves all first with ⟨-, unread⟩ | given
    · simp [unread] at now
    · have answer : (s.ask call).1 = (serve all call s.pending).1 := congrArg Prod.fst given
      have pending : (s.ask call).2.pending = (serve all call s.pending).2 :=
        congrArg Prod.snd given
      rw [replies, served, List.map_cons, rest, answer, pending, columns]

/-! ## The whole run -/

section Opened

variable (flows : Flows supply.bytes supply.limit)
  (opened : open? name delimiter hasHeader supply = .ok s)

include flows opened

theorem opened_underway : s.Underway ∧
    opening hasHeader (fated delimiter supply) = .ok (s.columns, s.pending) := by
  have header := opened_iff.mp opened
  have hands := readHeader_unopened name delimiter hasHeader flows
  rw [header] at hands
  rcases hands with ⟨-, unread⟩ | ⟨same, underway⟩
  · cases unread
  · exact ⟨underway, same.symm⟩

theorem seen_eq {calls : List Call} (onward : ∀ call ∈ calls, call ≠ .reset) :
    (∃ read, read ++ (s.after calls).ahead = behindMark supply ∧
      (unopened name delimiter hasHeader supply).seenHeader ++ s.seen calls ++
          (s.after calls).window =
        read ++ (List.replicate (failures (s.replies calls)) (s.after calls).held).flatten) ∧
    (s.after calls).held ++ (s.after calls).ahead <:+ supply.bytes := by
  obtain ⟨t, arrived, first⟩ := opened_passes flows opened
  have passes := first.trans ((opened_underway flows opened).1.passes onward)
  obtain ⟨behind, rest, seen⟩ := passes.arrived
  constructor
  · refine ⟨t.window ++ behind, ?_, by rw [seen, Nat.zero_add]⟩
    rw [List.append_assoc, rest]
    exact refill_behindMark arrived
  · obtain ⟨-, rfl⟩ := refill_eq_some_iff.mp arrived
    have whole : (unopened name delimiter hasHeader supply).refilled.held ++
        (unopened name delimiter hasHeader supply).refilled.ahead = supply.bytes :=
      List.take_append_drop _ _
    exact whole ▸ passes.piece

theorem seen_prefix {calls : List Call} (onward : ∀ call ∈ calls, call ≠ .reset)
    (readable : failures (s.replies calls) = 0) {call : Call} (last : call ≠ .reset) :
    (unopened name delimiter hasHeader supply).seenHeader ++ s.seen (calls ++ [call]) <+:
      behindMark supply := by
  have all : ∀ c ∈ calls ++ [call], c ≠ .reset := by
    intro c hc
    rcases List.mem_append.mp hc with hc | hc
    · exact onward c hc
    · exact List.mem_singleton.mp hc ▸ last
  obtain ⟨⟨read, rest, seen⟩, -⟩ := seen_eq flows opened all
  have after : s.after (calls ++ [call]) = ((s.after calls).ask call).2 :=
    s.after_append calls [call]
  have count : failures (s.replies (calls ++ [call])) =
      ((s.after calls).ask call).1.isUnreadable.toNat := by
    rw [failures, replies_append, List.countP_append]
    change failures (s.replies calls) + _ = _
    rw [readable]
    cases fails : ((s.after calls).ask call).1.isUnreadable <;> simp [replies, fails]
  rw [count, after] at seen
  rw [← rest]
  cases fails : ((s.after calls).ask call).1.isUnreadable with
  | false =>
    rw [fails] at seen
    simp only [Bool.toNat_false, List.replicate_zero, List.flatten_nil, List.append_nil] at seen
    rw [← seen, List.append_assoc]
    exact List.prefix_append _ _
  | true =>
    -- The window is the piece that was put back, so it cancels.
    rw [fails, ask_put_back last fails] at seen
    simp only [Bool.toNat_true, List.replicate_one, List.flatten_singleton] at seen
    rw [List.append_cancel_right seen]
    exact List.prefix_append _ _

/-- What a source looks at is its text, without a byte order mark, and after it
the last piece of the text for every call that failed to read. Up to and with the
first of these calls nothing is looked at twice, and the rows handed out before
it are those of the records, each once and in order. -/
theorem seen_again {calls : List Call} (onward : ∀ call ∈ calls, call ≠ .reset) :
    (∃ read, read ++ (s.after calls).ahead = behindMark supply ∧
      (unopened name delimiter hasHeader supply).seenHeader ++ s.seen calls ++
          (s.after calls).window =
        read ++ (List.replicate (failures (s.replies calls)) (s.after calls).held).flatten) ∧
    (s.after calls).held ++ (s.after calls).ahead <:+ supply.bytes ∧
    (failures (s.replies calls) = 0 →
      (∀ call, call ≠ .reset →
        (unopened name delimiter hasHeader supply).seenHeader ++ s.seen (calls ++ [call]) <+:
          behindMark supply) ∧
      ∃ pending, opening hasHeader (fated delimiter supply) = .ok (s.columns, pending) ∧
        s.replies calls = (served pending pending calls).map (fun answer => (answer, s.columns)) ∧
        delivered ((s.replies calls).map Prod.fst) <+: pending.filterMap Except.toOption) := by
  obtain ⟨law, piece⟩ := seen_eq flows opened onward
  refine ⟨law, piece, fun readable => ?_⟩
  obtain ⟨underway, start⟩ := opened_underway flows opened
  have given := underway.replies_serve s.pending onward readable
  refine ⟨fun call last => seen_prefix flows opened onward readable last, s.pending, start, given,
    ?_⟩
  rw [given, List.map_map]
  simpa [Function.comp_def] using delivered_served s.pending s.pending onward

end Opened

/-- The second piece of the text cannot be read. -/
def brokenSupply : Supply := ⟨[0x61, 0x0A, 0x31, 0x0A, 0x32, 0x0A], fun _ => 4, some 4⟩

theorem seen_again_broken :
    Flows brokenSupply.bytes brokenSupply.limit ∧
    ∃ s, open? "t" 0x2C true brokenSupply = .ok s ∧
      failures (s.replies [.next]) = 0 ∧
      (∀ call, call ≠ .reset →
        (unopened "t" 0x2C true brokenSupply).seenHeader ++ s.seen ([.next] ++ [call]) <+:
          behindMark brokenSupply) ∧
      failures (s.replies [.next, .next, .next]) = 1 ∧
      ∃ read, read ++ (s.after [.next, .next, .next]).ahead = behindMark brokenSupply ∧
        (unopened "t" 0x2C true brokenSupply).seenHeader ++ s.seen [.next, .next, .next] ++
            (s.after [.next, .next, .next]).window =
          read ++ (List.replicate 1 (s.after [.next, .next, .next]).held).flatten := by
  have flows : Flows brokenSupply.bytes brokenSupply.limit := fun _ _ => Nat.succ_pos 3
  have counts : (open? "t" 0x2C true brokenSupply).toOption.any
      (fun s => failures (s.replies [.next]) = 0 ∧
        failures (s.replies [.next, .next, .next]) = 1) = true := by
    decide +kernel
  cases opened : open? "t" 0x2C true brokenSupply with
  | error e => simp [opened, Except.toOption] at counts
  | ok s =>
    obtain ⟨none, one⟩ : failures (s.replies [.next]) = 0 ∧
        failures (s.replies [.next, .next, .next]) = 1 := by
      simpa [opened, Except.toOption] using counts
    have once : ∀ call ∈ ([.next] : List Call), call ≠ .reset := by simp
    have thrice : ∀ call ∈ ([.next, .next, .next] : List Call), call ≠ .reset := by simp
    obtain ⟨-, -, fine⟩ := seen_again flows opened once
    obtain ⟨law, -⟩ := seen_again flows opened thrice
    rw [one] at law
    exact ⟨flows, s, rfl, none, (fine none).1, one, law⟩

/-- The names of the columns come again as a row. -/
theorem seen_again_as_row :
    (open? "t" 0x2C true brokenSupply).toOption.map (fun s =>
      (s.columns, delivered ((s.replies [.next, .next, .next]).map Prod.fst))) =
    some (["a"], [["1"], ["a"]]) := by
  decide +kernel

end Source

end MatchingDependencies.Delimited
