/-!
# Reading delimited text byte by byte

A record is a list of fields separated by delimiters and ended by a line feed,
a carriage return, or both in this order. Empty lines are no records. A field
that starts with a quote runs to the next quote that is not doubled; what
follows that quote belongs to the field as plain text.

`react` is the whole syntax: it says for every place in the text and every
byte where the reader is afterwards and what the byte means.
-/

set_option autoImplicit false

namespace MatchingDependencies.Delimited

inductive Place where
  | recordStart
  | fieldStart
  | inField
  | inQuotes
  | afterQuote
  | afterReturn
  deriving DecidableEq, Repr

inductive Event where
  | skip
  | byte (b : UInt8)
  | fieldEnd
  | recordEnd
  deriving DecidableEq, Repr

def quote : UInt8 := 0x22
def lineFeed : UInt8 := 0x0A
def carriageReturn : UInt8 := 0x0D

def isTerminator (b : UInt8) : Bool := b = lineFeed || b = carriageReturn

namespace Place

def afterTerminator (b : UInt8) : Place := if b = carriageReturn then .afterReturn else .recordStart

def reactInField (delimiter b : UInt8) : Place × Event :=
  if b = delimiter then (.fieldStart, .fieldEnd)
  else if isTerminator b then (afterTerminator b, .recordEnd)
  else (.inField, .byte b)

def reactAtField (delimiter b : UInt8) : Place × Event :=
  if b = quote then (.inQuotes, .skip) else reactInField delimiter b

def reactAtRecord (delimiter b : UInt8) : Place × Event :=
  if isTerminator b then (.recordStart, .skip) else reactAtField delimiter b

def react (delimiter : UInt8) (place : Place) (b : UInt8) : Place × Event :=
  match place with
  | .recordStart => reactAtRecord delimiter b
  | .afterReturn => if b = lineFeed then (.recordStart, .skip) else reactAtRecord delimiter b
  | .fieldStart => reactAtField delimiter b
  | .inField => reactInField delimiter b
  | .inQuotes => if b = quote then (.afterQuote, .skip) else (.inQuotes, .byte b)
  | .afterQuote => if b = quote then (.inQuotes, .byte b) else reactInField delimiter b

/-- A record has begun and is not ended, so that the end of the text ends it. -/
def isOpen : Place → Bool
  | .recordStart | .afterReturn => false
  | _ => true

theorem recordEnd_closes (delimiter b : UInt8) (place : Place)
    (h : (react delimiter place b).2 = .recordEnd) :
    (react delimiter place b).1.isOpen = false := by
  cases place <;>
    simp only [react, reactAtRecord, reactAtField, reactInField, afterTerminator] at h ⊢ <;>
    (repeat' split) <;> simp_all [isOpen]

end Place

end MatchingDependencies.Delimited
