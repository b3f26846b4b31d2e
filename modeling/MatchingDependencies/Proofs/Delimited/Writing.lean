import MatchingDependencies.Proofs.Delimited.Arrival
import MatchingDependencies.Proofs.Text.Encoding

/-!
# Reading what has been written

A line is written with every field in quotes and the quotes in it doubled. The
reader goes through a quoted field without leaving the quotes, whatever stands
in it, and stands behind the closing quote at the delimiter or at the line end.
So a source of written lines gives the names in the first line and then hands
out the other lines, in whatever pieces they arrive.
-/

set_option autoImplicit false

namespace MatchingDependencies.Delimited

open Text

/-! ## Writing -/

def doubled (characters : List Char) : List Char :=
  characters.flatMap fun c => if c = '"' then ['"', '"'] else [c]

def quoted (text : String) : List UInt8 := quote :: (encode (doubled text.toList) ++ [quote])

inductive LineEnd where
  | lineFeed
  | returnAndLineFeed
  deriving DecidableEq, Repr

def LineEnd.bytes : LineEnd → List UInt8
  | .lineFeed => [Delimited.lineFeed]
  | .returnAndLineFeed => [carriageReturn, Delimited.lineFeed]

theorem LineEnd.exists_terminator (e : LineEnd) : ∃ terminator tail,
    e.bytes = terminator::tail ∧ isTerminator terminator = true ∧
      (Place.afterTerminator terminator = .recordStart ∧ tail = [] ∨
        Place.afterTerminator terminator = .afterReturn ∧ tail = [Delimited.lineFeed]) := by
  cases e with
  | lineFeed => exact ⟨_, _, rfl, rfl, .inl ⟨rfl, rfl⟩⟩
  | returnAndLineFeed => exact ⟨_, _, rfl, rfl, .inr ⟨rfl, rfl⟩⟩

structure Line where
  fields : Row
  lineEnd : LineEnd
  deriving DecidableEq, Repr

def Line.bytes (delimiter : UInt8) (line : Line) : List UInt8 :=
  [delimiter].intercalate (line.fields.map quoted) ++ line.lineEnd.bytes

def written (delimiter : UInt8) (lines : List Line) : List UInt8 :=
  lines.flatMap (Line.bytes delimiter)

@[simp] theorem written_cons (delimiter : UInt8) (line : Line) (lines : List Line) :
    written delimiter (line::lines) = line.bytes delimiter ++ written delimiter lines := rfl

theorem intercalate_quoted (delimiter : UInt8) (text : String) (texts : List String) :
    [delimiter].intercalate ((text::texts).map quoted) =
      quoted text ++ texts.flatMap fun text => delimiter :: quoted text := by
  induction texts generalizing text with
  | nil => simp [List.intercalate]
  | cons next texts ih =>
    rw [List.map_cons, List.map_cons, List.intercalate_cons_cons, ← List.map_cons, ih]
    simp

theorem written_unmarked (delimiter : UInt8) {line : Line} (lines : List Line)
    (inhabited : line.fields ≠ []) :
    ¬Source.byteOrderMark <+: written delimiter (line::lines) := by
  obtain ⟨text, texts, fields⟩ := List.exists_cons_of_ne_nil inhabited
  intro ⟨rest, same⟩
  simp only [written_cons, Line.bytes, fields, intercalate_quoted, quoted, Source.byteOrderMark,
    List.cons_append, List.cons.injEq] at same
  exact absurd same.1 (by decide)

/-! ## One field -/

namespace Source

def moved (s : Source) (place : Place) (window : List UInt8) (line : Nat) : Source :=
  { s with place, window, line }

variable {s t : Source} {place place' : Place} {b c : UInt8} {row : Row} {field : List UInt8}

theorem consume_moved {event : Event} (react : place.react s.delimiter b = (place', event))
    (rest : List UInt8) (line : Nat) :
    ∃ line', (s.moved place (b::rest) line).consume b rest =
      (event, s.moved place' rest line') := by
  refine ⟨if b = lineFeed then line+1 else line, ?_⟩
  simp only [consume, moved, react]

theorem readOn_skip (react : place.react s.delimiter b = (place', .skip)) (row : Row)
    (field rest : List UInt8) (line : Nat) :
    ∃ line', (s.moved place (b::rest) line).readOn row field =
      (s.moved place' rest line').readOn row field := by
  obtain ⟨line', consumed⟩ := consume_moved react rest line
  rw [readOn_of_cons rfl, consumed]
  exact ⟨line', rfl⟩

theorem readOn_byte (react : place.react s.delimiter b = (place', .byte c)) (row : Row)
    (field rest : List UInt8) (line : Nat) :
    ∃ line', (s.moved place (b::rest) line).readOn row field =
      (s.moved place' rest line').readOn row (c::field) := by
  obtain ⟨line', consumed⟩ := consume_moved react rest line
  rw [readOn_of_cons rfl, consumed]
  exact ⟨line', rfl⟩

theorem readOn_inQuotes (s : Source) {bytes : List UInt8} (plain : quote ∉ bytes) (row : Row)
    (field rest : List UInt8) (line : Nat) :
    ∃ line', (s.moved .inQuotes (bytes ++ rest) line).readOn row field =
      (s.moved .inQuotes rest line').readOn row (bytes.reverse ++ field) := by
  induction bytes generalizing field line with
  | nil => exact ⟨line, rfl⟩
  | cons b bytes ih =>
    obtain ⟨other, plain⟩ := not_or.mp (List.mem_cons.not.mp plain)
    have react : Place.inQuotes.react s.delimiter b = (.inQuotes, .byte b) := if_neg (Ne.symm other)
    obtain ⟨line', step⟩ := readOn_byte react row field (bytes ++ rest) line
    obtain ⟨line'', rest⟩ := ih plain (b::field) line'
    refine ⟨line'', ?_⟩
    rw [List.cons_append, step, rest, List.reverse_cons, List.append_assoc]
    rfl

theorem quote_notMem {c : Char} (other : c ≠ '"') : quote ∉ String.utf8EncodeChar c :=
  fun mem => other (eq_of_mem_utf8EncodeChar mem (by decide))

theorem readOn_doubled (s : Source) (characters : List Char) (row : Row) (field rest : List UInt8)
    (line : Nat) :
    ∃ line', (s.moved .inQuotes (encode (doubled characters) ++ rest) line).readOn row field =
      (s.moved .inQuotes rest line').readOn row ((encode characters).reverse ++ field) := by
  induction characters generalizing field line with
  | nil => exact ⟨line, rfl⟩
  | cons c characters ih =>
    have split : encode (doubled (c::characters)) ++ rest =
        encode (if c = '"' then ['"', '"'] else [c]) ++ (encode (doubled characters) ++ rest) := by
      rw [doubled, List.flatMap_cons, encode_append, List.append_assoc, doubled]
    rw [split, encode_cons, List.reverse_append, List.append_assoc]
    by_cases quotation : c = '"'
    · subst quotation
      have close : Place.inQuotes.react s.delimiter quote = (.afterQuote, .skip) := rfl
      have again : Place.afterQuote.react s.delimiter quote = (.inQuotes, .byte quote) := rfl
      obtain ⟨line₁, first⟩ := readOn_skip close row field
        (quote :: (encode (doubled characters) ++ rest)) line
      obtain ⟨line₂, second⟩ := readOn_byte again row field
        (encode (doubled characters) ++ rest) line₁
      obtain ⟨line₃, later⟩ := ih (quote::field) line₂
      exact ⟨line₃, first.trans (second.trans later)⟩
    · rw [if_neg quotation, encode_cons, encode_nil, List.append_nil]
      obtain ⟨line₁, first⟩ := readOn_inQuotes s (quote_notMem quotation) row field
        (encode (doubled characters) ++ rest) line
      obtain ⟨line₂, later⟩ := ih ((String.utf8EncodeChar c).reverse ++ field) line₁
      exact ⟨line₂, first.trans later⟩

theorem readOn_quoted (opens : place.react s.delimiter quote = (.inQuotes, .skip)) (row : Row)
    (text : String) (rest : List UInt8) (line : Nat) :
    ∃ line', (s.moved place (quoted text ++ rest) line).readOn row [] =
      (s.moved .afterQuote rest line').readOn row (encode text.toList).reverse := by
  have close : Place.inQuotes.react s.delimiter quote = (.afterQuote, .skip) := rfl
  obtain ⟨line₁, opened⟩ := readOn_skip opens row []
    (encode (doubled text.toList) ++ (quote::rest)) line
  obtain ⟨line₂, inside⟩ := readOn_doubled s text.toList row [] (quote::rest) line₁
  obtain ⟨line₃, closed⟩ := readOn_skip close row ((encode text.toList).reverse ++ []) rest line₂
  refine ⟨line₃, ?_⟩
  rw [List.append_nil] at closed inside
  rw [quoted, List.cons_append, List.append_assoc]
  exact opened.trans (inside.trans closed)

/-! ## One line -/

theorem readOn_fields (distinct : s.delimiter ≠ quote) (apart : isTerminator s.delimiter = false)
    {terminator : UInt8} (ends : isTerminator terminator = true)
    (opens : place.react s.delimiter quote = (.inQuotes, .skip)) (row : Row) (text : String)
    (texts : List String) (rest : List UInt8) (line : Nat) :
    ∃ line', (s.moved place
          ([s.delimiter].intercalate ((text::texts).map quoted) ++ terminator::rest) line).readOn
        row [] =
      (.ok (some (row.reverse ++ text::texts)),
        s.moved (Place.afterTerminator terminator) rest line') := by
  have unquote : terminator ≠ quote := by
    rintro rfl
    exact absurd ends (by decide)
  have other : terminator ≠ s.delimiter := by
    rintro rfl
    rw [apart] at ends
    exact absurd ends (by decide)
  rw [intercalate_quoted, List.append_assoc]
  -- Between two fields the delimiter stands behind a quote, so the next one starts like this.
  induction texts generalizing place row text line with
  | nil =>
    have react : Place.afterQuote.react s.delimiter terminator =
        (Place.afterTerminator terminator, .recordEnd) := by
      simp only [Place.react, Place.reactInField, if_neg unquote, if_neg other, ends, if_true]
    obtain ⟨line₁, field⟩ := readOn_quoted opens row text (terminator::rest) line
    obtain ⟨line₂, consumed⟩ := consume_moved react rest line₁
    refine ⟨line₂, field.trans ?_⟩
    rw [readOn_of_cons rfl, consumed]
    simp only [withField, List.reverse_reverse, decode_encode, Except.map, List.reverse_cons]
  | cons next texts ih =>
    have react : Place.afterQuote.react s.delimiter s.delimiter = (.fieldStart, .fieldEnd) := by
      simp only [Place.react, Place.reactInField, if_neg distinct, if_true]
    have start : Place.fieldStart.react s.delimiter quote = (.inQuotes, .skip) := rfl
    let later := quoted next ++ (texts.flatMap (fun text => s.delimiter :: quoted text) ++
      terminator::rest)
    have split : (next::texts).flatMap (fun text => s.delimiter :: quoted text) ++
        terminator::rest = s.delimiter :: later := by
      rw [List.flatMap_cons, List.append_assoc, List.cons_append]
    obtain ⟨line₁, field⟩ := readOn_quoted opens row text (s.delimiter :: later) line
    obtain ⟨line₂, consumed⟩ := consume_moved react later line₁
    obtain ⟨line₃, fields⟩ := ih start (text::row) next line₂
    refine ⟨line₃, ?_⟩
    rw [split, field, readOn_of_cons rfl, consumed]
    simp only [withField, List.reverse_reverse, decode_encode, later, fields, List.reverse_cons,
      List.append_assoc, List.singleton_append]

/-- The source looks at these lines next. The line feed of the line before may
still stand in front of them. -/
structure Before (delimiter : UInt8) (lines : List Line) (s : Source) : Prop where
  delimited : s.delimiter = delimiter
  ended : s.ended = true
  front : s.place = .recordStart ∧ s.window = written delimiter lines ∨
    s.place = .afterReturn ∧ s.window = lineFeed :: written delimiter lines

def Facing (delimiter : UInt8) (lines : List Line) (s : Source) : Prop :=
  if s.done then lines = [] else s.Before delimiter lines

variable {delimiter : UInt8} {line : Line} {lines : List Line}

theorem Facing.congr (h : s.Facing delimiter lines) (delimited : t.delimiter = s.delimiter)
    (ended : t.ended = s.ended) (done : t.done = s.done) (place : t.place = s.place)
    (window : t.window = s.window) : t.Facing delimiter lines := by
  rw [Facing] at h ⊢
  rw [done]
  split_ifs at h ⊢
  · exact h
  · exact ⟨delimited.trans h.delimited, ended.trans h.ended, by rw [place, window]; exact h.front⟩

theorem Before.readOn (h : s.Before delimiter lines) :
    ∃ count, s.readOn [] [] =
      (s.moved .recordStart (written delimiter lines) count).readOn [] [] := by
  rcases h.front with ⟨place, window⟩ | ⟨place, window⟩
  · refine ⟨s.line, ?_⟩
    rw [moved, ← place, ← window]
  · have react : Place.afterReturn.react s.delimiter lineFeed = (.recordStart, .skip) := rfl
    obtain ⟨count, skipped⟩ := readOn_skip react [] [] (written delimiter lines) s.line
    refine ⟨count, ?_⟩
    rw [← skipped, moved, ← place, ← window]

structure Keeps (s t : Source) : Prop where
  columns : t.columns = s.columns
  peeked : t.peeked = s.peeked
  hasHeader : t.hasHeader = s.hasHeader

theorem Before.readRow_cons (h : s.Before delimiter (line::lines)) (going : s.done = false)
    (distinct : delimiter ≠ quote) (apart : isTerminator delimiter = false)
    (inhabited : line.fields ≠ []) :
    ∃ t, s.readRow = (.ok (some line.fields), t) ∧ t.Facing delimiter lines ∧ Keeps s t := by
  obtain ⟨count, start⟩ := h.readOn
  obtain ⟨text, texts, fields⟩ := List.exists_cons_of_ne_nil inhabited
  have read : s.readRow = s.readOn [] [] := by rw [readRow, going]; rfl
  obtain ⟨rfl, ended, -⟩ := h
  have opens : Place.recordStart.react s.delimiter quote = (.inQuotes, .skip) := rfl
  obtain ⟨terminator, tail, bytes, ends, after⟩ := line.lineEnd.exists_terminator
  obtain ⟨last, row⟩ := readOn_fields distinct apart ends opens [] text texts
    (tail ++ written s.delimiter lines) count
  rw [read, start, written_cons, Line.bytes, fields, bytes]
  refine ⟨_, (congrArg (fun bytes => (s.moved .recordStart bytes count).readOn [] [])
    (List.append_assoc _ _ _)).trans row, ?_, rfl, rfl, rfl⟩
  simp only [Facing, moved, going]
  refine ⟨rfl, ended, ?_⟩
  rcases after with ⟨place, rfl⟩ | ⟨place, rfl⟩
  · exact .inl ⟨place, rfl⟩
  · exact .inr ⟨place, rfl⟩

theorem Before.readRow_nil (h : s.Before delimiter []) (going : s.done = false) :
    ∃ t, s.readRow = (.ok none, t) ∧ t.Facing delimiter [] ∧ Keeps s t := by
  obtain ⟨count, start⟩ := h.readOn
  have read : s.readRow = s.readOn [] [] := by rw [readRow, going]; rfl
  have last := readOn_of_ended (s := s.moved .recordStart [] count) rfl h.ended [] []
  exact ⟨_, read.trans (start.trans last), rfl, rfl, rfl, rfl⟩

theorem readRow_written (distinct : delimiter ≠ quote) (apart : isTerminator delimiter = false)
    (inhabited : ∀ line ∈ lines, line.fields ≠ []) (h : s.Facing delimiter lines) :
    ∃ t, s.readRow = (.ok (lines.head?.map Line.fields), t) ∧ t.Facing delimiter lines.tail ∧
      Keeps s t := by
  by_cases done : s.done = true
  · simp only [Facing, done, if_true] at h
    subst h
    refine ⟨s, by rw [readRow, if_pos done]; rfl, ?_, rfl, rfl, rfl⟩
    simp only [Facing, done, if_true, List.tail_nil]
  · simp only [Facing, done] at h
    cases lines with
    | nil => exact h.readRow_nil (Bool.not_eq_true _ ▸ done)
    | cons line lines =>
      exact h.readRow_cons (Bool.not_eq_true _ ▸ done) distinct apart
        (inhabited line List.mem_cons_self)

/-! ## The whole text -/

def Handing (delimiter : UInt8) (lines : List Line) (s : Source) : Prop :=
  (s.peeked = none ∧ s.Facing delimiter lines) ∨
    ∃ line rest, lines = line::rest ∧ s.peeked = some line.fields ∧ s.Facing delimiter rest

theorem Handing.paced (h : s.Handing delimiter lines) (limit : Nat → Nat) :
    (s.paced limit).Handing delimiter lines := by
  rcases h with ⟨none, facing⟩ | ⟨line, rest, rfl, peeked, facing⟩
  · exact .inl ⟨none, facing.congr rfl rfl rfl rfl rfl⟩
  · exact .inr ⟨line, rest, rfl, peeked, facing.congr rfl rfl rfl rfl rfl⟩

theorem next_written (distinct : delimiter ≠ quote) (apart : isTerminator delimiter = false)
    (inhabited : ∀ line ∈ lines, line.fields ≠ []) (h : s.Handing delimiter lines) :
    ∃ t, s.next = (.ok (lines.head?.map Line.fields), t) ∧ t.Handing delimiter lines.tail ∧
      t.columns = s.columns := by
  rcases h with ⟨none, facing⟩ | ⟨line, rest, rfl, peeked, facing⟩
  · obtain ⟨t, read, facing, keeps⟩ := readRow_written distinct apart inhabited facing
    refine ⟨t, by rw [next, none, read], .inl ⟨keeps.peeked.trans none, facing⟩, keeps.columns⟩
  · exact ⟨{ s with peeked := none }, by rw [next, peeked]; rfl,
      .inl ⟨rfl, facing.congr rfl rfl rfl rfl rfl⟩, rfl⟩

theorem transcript_written (distinct : delimiter ≠ quote) (apart : isTerminator delimiter = false)
    (inhabited : ∀ line ∈ lines, line.fields ≠ []) (h : s.Handing delimiter lines)
    (pace : Nat → Nat → Nat) (count : Nat) :
    s.transcript pace (List.replicate count .next) =
      (List.range count).map fun n => (.row (.ok (lines.map Line.fields)[n]?), s.columns) := by
  induction count generalizing s lines pace with
  | zero => rfl
  | succ count ih =>
    have paced := h.paced (pace 0)
    obtain ⟨t, asked, handing, columns⟩ := next_written distinct apart inhabited paced
    have later := ih (fun line mem => inhabited line (List.mem_of_mem_tail mem)) handing
      (fun n => pace (n+1))
    rw [List.replicate_succ, transcript, List.range_succ_eq_map, List.map_cons, List.map_map, ask,
      asked, later, columns]
    cases lines with
    | nil => rfl
    | cons line lines => rfl

theorem readHeader_written (distinct : delimiter ≠ quote) (apart : isTerminator delimiter = false)
    (inhabited : ∀ other ∈ line::lines, other.fields ≠ []) (header : s.hasHeader = true)
    (h : s.Facing delimiter (line::lines)) :
    ∃ t, s.readHeader = (.ok (), t) ∧ t.columns = line.fields ∧ t.Handing delimiter lines := by
  obtain ⟨t, first, facing, keeps⟩ := readRow_written distinct apart inhabited h
  have headed : (t.headed line.fields none).Facing delimiter lines :=
    facing.congr rfl rfl rfl rfl rfl
  obtain ⟨u, second, facing, kept⟩ := readRow_written distinct apart
    (fun other mem => inhabited other (List.mem_cons_of_mem _ mem)) headed
  refine ⟨u.headed u.columns (lines.head?.map Line.fields), ?_, kept.columns, ?_⟩
  · rw [readHeader_eq, first]
    simp only [keeps.hasHeader, header, if_true, List.head?_cons, Option.map_some, Option.getD_some,
      second]
  · cases lines with
    | nil => exact .inl ⟨rfl, facing.congr rfl rfl rfl rfl rfl⟩
    | cons line lines => exact .inr ⟨line, lines, rfl, rfl, facing.congr rfl rfl rfl rfl rfl⟩

theorem Steady.arrived_alike {bytes : List UInt8} (h : s.Steady bytes) :
    Alike bytes s s.arrived where
  left := h
  right := by
    constructor
    · exact h.text
    · exact h.unmarked
    · rfl
    · exact fun _ _ => Nat.zero_lt_succ _
    · exact (List.drop_eq_nil_of_le (by rw [arrived, h.text])).symm
    · intro fresh
      cases fresh
    · exact fun _ => rfl
  same := by simp [arrived, Supply.whole]

/-- Reading gives back what has been written. The first line gives the names of
the columns, every call for a row the row of the next line, and nothing once
all lines have been handed out, whatever the pieces are in which the text
arrives. -/
theorem session_written (name : String) {delimiter : UInt8} (distinct : delimiter ≠ quote)
    (unfed : delimiter ≠ lineFeed) (unreturned : delimiter ≠ carriageReturn) (header : Line)
    (lines : List Line) (inhabited : ∀ line ∈ header::lines, line.fields ≠ [])
    (pace : Nat → Nat → Nat)
    (flows : ∀ n, Flows (written delimiter (header::lines)) (pace n)) (count : Nat) :
    session name delimiter true (written delimiter (header::lines)) pace
        (List.replicate count .next) =
      .ok (header.fields, (List.range count).map fun n =>
        (.row (.ok (lines.map Line.fields)[n]?), header.fields)) := by
  have apart : isTerminator delimiter = false := by simp [isTerminator, unfed, unreturned]
  have unmarked := written_unmarked delimiter lines (inhabited header List.mem_cons_self)
  let s := unopened name delimiter true ⟨written delimiter (header::lines), pace 0, none⟩
  have alike := (Alike.unopened name delimiter true unmarked (flows 0) (flows 0)).left.arrived_alike
  have facing : s.arrived.Facing delimiter (header::lines) :=
    ⟨rfl, rfl, .inl ⟨rfl, List.nil_append _⟩⟩
  obtain ⟨t, read, columns, handing⟩ := readHeader_written distinct apart inhabited rfl facing
  obtain ⟨answers, states⟩ := readHeader_indifferent.alike alike
  rw [read] at answers states
  have asked := states.transcript (fun n => flows (n+1)) (fun n => flows (n+1))
    (List.replicate count .next)
  rw [session, open?_eq, answers]
  simp only [Except.map]
  rw [states.columns, asked, transcript_written distinct apart
    (fun line mem => inhabited line (List.mem_cons_of_mem _ mem)) handing, columns]

/-- Every field that is hard to write: quotes, the delimiter and both line ends
inside the quotes, nothing at all, letters of two and of four bytes. -/
theorem session_written_hard :
    let delimiter : UInt8 := 0x3B
    let header : Line := ⟨["a;b", "\r\n"], .returnAndLineFeed⟩
    let lines : List Line :=
      [⟨["\"", "x\"\"y\n"], .lineFeed⟩, ⟨[""], .lineFeed⟩, ⟨["é", "", "😀"], .returnAndLineFeed⟩]
    delimiter ≠ quote ∧ delimiter ≠ lineFeed ∧ delimiter ≠ carriageReturn ∧
      (∀ line ∈ header::lines, line.fields ≠ []) ∧
      (∀ _ : Nat, Flows (written delimiter (header::lines)) fun _ => 1) ∧
      session "t" delimiter true (written delimiter (header::lines)) (fun _ _ => 1)
          (List.replicate 5 .next) =
        .ok (["a;b", "\r\n"],
          [(.row (.ok (some ["\"", "x\"\"y\n"])), ["a;b", "\r\n"]),
            (.row (.ok (some [""])), ["a;b", "\r\n"]),
            (.row (.ok (some ["é", "", "😀"])), ["a;b", "\r\n"]),
            (.row (.ok none), ["a;b", "\r\n"]), (.row (.ok none), ["a;b", "\r\n"])]) := by
  intro delimiter header lines
  have distinct : delimiter ≠ quote := by decide
  have unfed : delimiter ≠ lineFeed := by decide
  have unreturned : delimiter ≠ carriageReturn := by decide
  have inhabited : ∀ line ∈ header::lines, line.fields ≠ [] := by
    simp [header, lines]
  have flows : ∀ _ : Nat, Flows (written delimiter (header::lines)) fun _ => 1 :=
    fun _ _ _ => Nat.one_pos
  exact ⟨distinct, unfed, unreturned, inhabited, flows,
    session_written "t" distinct unfed unreturned header lines inhabited (fun _ _ => 1) flows 5⟩

end Source

end MatchingDependencies.Delimited
