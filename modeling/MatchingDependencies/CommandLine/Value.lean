import MatchingDependencies.Score.Text
import MatchingDependencies.Text.Parts
import MatchingDependencies.Text.Quoted

/-!
# Values of options

How the text behind an option is read. What is wrong with a text is told in one
phrase.
-/

set_option autoImplicit false

namespace MatchingDependencies.CommandLine

open Text

structure MatchArgument where
  left : String
  right : String
  measure : String
  cutoff : Score

/-! ## Counts -/

def countLimit : Nat := 0x10000000000000000

def notANumber : String := "invalid digit found in string"

/-- Reads the digits of a count. A digit that makes the count too large is
noticed before the characters behind it. -/
def readCountDigits : List Char → (value : Nat) → Except String Nat
  | [], value => .ok value
  | c::cs, value =>
    if !c.isDigit then .error notANumber
    else
      let value := 10*value + Score.digitValue c
      if value < countLimit then readCountDigits cs value
      else .error "number too large to fit in target type"

def readCount (text : String) : Except String Nat :=
  match text.toList with
  | [] => .error "cannot parse integer from empty string"
  | ['+'] => .error notANumber
  | '+'::digits => readCountDigits digits 0
  | digits => readCountDigits digits 0

/-! ## Switches, delimiters and scores -/

def readSwitch? (text : String) : Option Bool :=
  match text with
  | "true" => some true
  | "false" => some false
  | _ => none

def tab : UInt8 := 9

def readDelimiter (text : String) : Except String UInt8 :=
  if text = "tab" || text = "\\t" then .ok tab
  else
    match text.toList with
    | [c] =>
      if c.toNat < 128 then .ok c.toNat.toUInt8
      else .error ("expected one ASCII character, got " ++ quoted text)
    | _ => .error ("expected one ASCII character, got " ++ quoted text)

def readScore (text : String) : Except String Score :=
  match Score.read? text with
  | some s => .ok s
  | none =>
    if text.isEmpty then .error "cannot parse float from empty string"
    else .error "invalid float literal"

/-! ## Column matches -/

def readCutoff (text : String) : Except String Score :=
  (readScore text).mapError fun why =>
    "bad minimum similarity " ++ quoted text ++ ": " ++ why

/-- Three parts between colons, or four with a cutoff. The fourth part is read
before the parts are counted. -/
def readMatch (text : String) : Except String MatchArgument :=
  match parts ':' text with
  | [left, right, measure] => .ok ⟨left, right, measure, 0⟩
  | [left, right, measure, cutoff] => (readCutoff cutoff).map fun s => ⟨left, right, measure, s⟩
  | _::_::_::cutoff::_ => do
    let _ ← readCutoff cutoff
    .error ("expected LEFT:RIGHT:MEASURE[:MIN_SIM], got " ++ quoted text)
  | _ => .error ("expected LEFT:RIGHT:MEASURE[:MIN_SIM], got " ++ quoted text)

end MatchingDependencies.CommandLine
