/-!
# Control sequences

A text for a terminal may hold control sequences, which are not shown. An
escape character starts one, and what follows decides how far it goes: a few
characters, parameters up to a final letter, or a string of any length. Another
escape character starts anew; cancel and substitute give up.

`printed` is what is left of a text without its control sequences and control
characters. Layout characters, the controls that only move to another place,
are kept. In the middle of a sequence one of them suspends it: text is shown as
usual until some other control character resumes the sequence.
-/

set_option autoImplicit false

namespace MatchingDependencies.Text.ControlSequence

inductive Mode where
  /-- Outside of any sequence. -/
  | ground
  /-- Behind an escape character. -/
  | escape
  /-- Behind an escape character and what selects the meaning of the next one. -/
  | selection
  /-- Among the parameters of a control sequence. -/
  | parameters
  /-- In a command to the operating system, which a bell ends. -/
  | command
  /-- At the start of a device control string. -/
  | device
  | deviceParameters
  | deviceSelection
  /-- In the body of a string, which the string terminator ends. -/
  | body
  deriving DecidableEq

def isLayout (c : Char) : Bool := c = '\t' || c = '\n' || c = '\x0c' || c = '\r'

def isControl (c : Char) : Bool := c.toNat < 32 || c = '\x7f'

def isAscii (c : Char) : Bool := c.toNat < 128

def lies (low high c : Char) : Bool := low ≤ c && c ≤ high

/-- The string terminator is a single byte, which is also found inside of
encoded characters. -/
def holdsTerminator (c : Char) : Bool := (String.utf8EncodeChar c).contains 0x9C

namespace Mode

def introduced (c : Char) : Mode :=
  if lies ' ' '/' c then .selection
  else if c = '[' then .parameters
  else if c = ']' then .command
  else if c = 'P' then .device
  else if c = 'X' || c = '^' || c = '_' then .body
  else if lies '0' '~' c then .ground
  else .escape

def after (m : Mode) (c : Char) : Mode :=
  match m with
  | .ground => .ground
  | .escape => introduced c
  | .selection => if lies '0' '~' c then .ground else m
  | .parameters => if lies '@' '~' c then .ground else m
  | .command => if c = '\x07' then .ground else m
  | .device =>
    if lies ' ' '/' c then .deviceSelection
    else if lies '0' '?' c then .deviceParameters
    else if lies '@' '~' c then .body
    else m
  | .deviceParameters =>
    if lies ' ' '/' c then .deviceSelection else if lies '<' '~' c then .body else m
  | .deviceSelection => if lies '0' '~' c then .body else m
  | .body => if holdsTerminator c then .ground else m

/-- Strings take in layout characters; all other sequences let them through. -/
def keepsLayout : Mode → Bool
  | .ground | .escape | .selection | .parameters => true
  | _ => false

end Mode

structure State where
  mode : Mode
  /-- Whether a layout character interrupts the sequence. -/
  suspended : Bool

namespace State

def start : State := ⟨.ground, false⟩

def showsText (s : State) : Bool := s.suspended || s.mode = .ground

def shows (s : State) (c : Char) : Bool :=
  if isControl c then isLayout c && s.mode.keepsLayout else s.showsText

def after (s : State) (c : Char) : State :=
  if c = '\x1b' then ⟨.escape, false⟩
  else if c = '\x18' || c = '\x1a' then start
  else if isLayout c then ⟨s.mode, s.mode.keepsLayout⟩
  else if s.suspended then
    if isControl c then ⟨s.mode, false⟩ else if isAscii c then s else start
  else ⟨s.mode.after c, false⟩

end State

def readOn (read : State × List Char) (c : Char) : State × List Char :=
  (read.1.after c, if read.1.shows c then c :: read.2 else read.2)

def printed (text : String) : String :=
  String.ofList (text.toList.foldl readOn (State.start, [])).2.reverse

end MatchingDependencies.Text.ControlSequence
