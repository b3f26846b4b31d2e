import MatchingDependencies.CommandLine.Value

/-!
# Arguments

Arguments are read from left to right. The value of an option stands behind an
equals sign or in the next argument. In the second case the value is looked at
only when the next option turns up or the arguments end, and an argument that
is not understood in between is reported instead.
-/

set_option autoImplicit false

namespace MatchingDependencies.CommandLine

inductive ValueOption where
  | left
  | right
  | delimiter
  | columnMatch
  | minSupport
  | nullEqualsNull
  | threads
  | logLevel
  deriving DecidableEq

namespace ValueOption

def name : ValueOption → String
  | .left => "left"
  | .right => "right"
  | .delimiter => "delimiter"
  | .columnMatch => "match"
  | .minSupport => "min-support"
  | .nullEqualsNull => "null-equal-null"
  | .threads => "threads"
  | .logLevel => "log-level"

def placeholder : ValueOption → String
  | .left => "LEFT"
  | .right => "RIGHT"
  | .delimiter => "DELIMITER"
  | .columnMatch => "MATCHES"
  | .minSupport => "MIN_SUPPORT"
  | .nullEqualsNull => "NULL_EQUAL_NULL"
  | .threads => "THREADS"
  | .logLevel => "LOG_LEVEL"

def all : List ValueOption :=
  [.left, .right, .delimiter, .columnMatch, .minSupport, .nullEqualsNull, .threads, .logLevel]

def named? (text : String) : Option ValueOption := all.find? (·.name == text)

end ValueOption

inductive Switch where
  | noHeader
  | allowNondisjoint
  | help
  | version
  deriving DecidableEq

namespace Switch

def name : Switch → String
  | .noHeader => "no-header"
  | .allowNondisjoint => "allow-nondisjoint"
  | .help => "help"
  | .version => "version"

def all : List Switch := [.noHeader, .allowNondisjoint, .help, .version]

def named? (text : String) : Option Switch := all.find? (·.name == text)

end Switch

inductive Stop where
  | help
  | version
  | misuse
  | invalidValue (option : ValueOption) (value : String) (why : Option String)

/-- What the arguments have said so far. The number of threads and the log
level are read for their faults only; they change nothing that is found. -/
structure Draft where
  left : Option String := none
  right : Option String := none
  delimiter : Option UInt8 := none
  columnMatches : List MatchArgument := []
  minSupport : Option Nat := none
  nullEqualsNull : Option Bool := none
  threads : Option Nat := none
  logLevel : Option String := none
  noHeader : Bool := false
  allowNondisjoint : Bool := false

/-! ## One argument -/

inductive Argument where
  | valued (option : ValueOption) (value : Option String)
  | switch (s : Switch)
  /-- Everything behind this argument is meant literally. -/
  | literally
  | plain (text : String)
  | unknown

def cutAtEquals : List Char → List Char × Option (List Char)
  | [] => ([], none)
  | c::cs =>
    if c = '=' then ([], some cs)
    else
      let (name, value) := cutAtEquals cs
      (c::name, value)

def longArgument (cs : List Char) : Argument :=
  let (name, value) := cutAtEquals cs
  match ValueOption.named? (String.ofList name), Switch.named? (String.ofList name), value with
  | some o, _, value => .valued o (value.map String.ofList)
  | none, some s, none => .switch s
  | none, _, _ => .unknown

/-- An argument behind one hyphen. Either letter ends the reading at once, so
the letters behind it do not matter. -/
def shortArgument : Char → Argument
  | 'h' => .switch .help
  | 'V' => .switch .version
  | _ => .unknown

def argument (text : String) : Argument :=
  match text.toList with
  | ['-', '-'] => .literally
  | '-' :: '-' :: cs => longArgument cs
  | '-' :: c :: _ => shortArgument c
  | _ => .plain text

/-! ## Values -/

def checked {α : Type} (o : ValueOption) (text : String) (value : Except String α) :
    Except Stop α :=
  value.mapError fun why => .invalidValue o text (some why)

def once {α : Type} (o : ValueOption) (read : String → Except String α) (text : String)
    (old : Option α) : Except Stop α :=
  if old.isSome then .error .misuse else checked o text (read text)

def path (text : String) (old : Option String) : Except Stop String :=
  if old.isSome || text.isEmpty then .error .misuse else .ok text

/-- One of the two values of a switch must be given; an empty value counts as
missing. -/
def switchValue (o : ValueOption) (text : String) (old : Option Bool) : Except Stop Bool :=
  if old.isSome || text.isEmpty then .error .misuse
  else
    match readSwitch? text with
    | some b => .ok b
    | none => .error (.invalidValue o text none)

/-- Takes in the value of an option. Only column matches may be given more than
once. -/
def Draft.withValue (d : Draft) (o : ValueOption) (text : String) : Except Stop Draft :=
  match o with
  | .left => (path text d.left).map fun p => { d with left := some p }
  | .right => (path text d.right).map fun p => { d with right := some p }
  | .delimiter =>
    (once o readDelimiter text d.delimiter).map fun b => { d with delimiter := some b }
  | .columnMatch =>
    (checked o text (readMatch text)).map fun m =>
      { d with columnMatches := d.columnMatches ++ [m] }
  | .minSupport => (once o readCount text d.minSupport).map fun n => { d with minSupport := some n }
  | .nullEqualsNull =>
    (switchValue o text d.nullEqualsNull).map fun b => { d with nullEqualsNull := some b }
  | .threads => (once o readCount text d.threads).map fun n => { d with threads := some n }
  | .logLevel => (once o Except.ok text d.logLevel).map fun l => { d with logLevel := some l }

def Draft.withSwitch (d : Draft) : Switch → Except Stop Draft
  | .noHeader => if d.noHeader then .error .misuse else .ok { d with noHeader := true }
  | .allowNondisjoint =>
    if d.allowNondisjoint then .error .misuse else .ok { d with allowNondisjoint := true }
  | .help => .error .help
  | .version => .error .version

/-! ## All arguments -/

inductive Waiting where
  | nothing
  | value (option : ValueOption)
  | resolution (option : ValueOption) (value : String)

/-- Takes in the value that waits. An option that still lacks its value is a
mistake. -/
def Draft.resolve (d : Draft) : Waiting → Except Stop Draft
  | .nothing => .ok d
  | .value _ => .error .misuse
  | .resolution o text => d.withValue o text

def scan (d : Draft) (w : Waiting) : List String → Except Stop Draft
  | [] => d.resolve w
  | text::rest =>
    match argument text, w with
    | .literally, w => if rest.isEmpty then d.resolve w else .error .misuse
    | .unknown, _ => .error .misuse
    | .switch s, w => do
      let d ← (← d.resolve w).withSwitch s
      scan d .nothing rest
    | .valued o none, w => do
      let d ← d.resolve w
      scan d (.value o) rest
    | .valued o (some value), w => do
      let d ← (← d.resolve w).withValue o value
      scan d .nothing rest
    | .plain value, .value o => scan d (.resolution o value) rest
    | .plain _, _ => .error .misuse

/-! ## The command -/

structure Command where
  left : String
  right : Option String
  delimiter : UInt8
  hasHeader : Bool
  columnMatches : List MatchArgument
  minSupport : Nat
  nullEqualsNull : Bool
  disjoint : Bool

def comma : UInt8 := 44

def Draft.command (d : Draft) : Except Stop Command :=
  match d.left with
  | none => .error .misuse
  | some left =>
    .ok {
      left
      right := d.right
      delimiter := d.delimiter.getD comma
      hasHeader := !d.noHeader
      columnMatches := d.columnMatches
      minSupport := d.minSupport.getD 0
      nullEqualsNull := d.nullEqualsNull.getD true
      disjoint := !d.allowNondisjoint }

def readArguments (arguments : List String) : Except Stop Command := do
  let d ← scan {} .nothing arguments
  d.command

end MatchingDependencies.CommandLine
