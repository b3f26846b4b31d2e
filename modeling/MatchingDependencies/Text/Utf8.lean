/-!
# Decoding bytes

Bytes are decoded to characters by UTF-8. A fault names the byte at which the
first malformed sequence starts, and how many bytes belong to it; a sequence
that the end of the bytes cuts off has no length.
-/

set_option autoImplicit false

namespace MatchingDependencies.Text

structure DecodingFault where
  start : Nat
  length : Option Nat
  deriving DecidableEq, Repr

namespace DecodingFault

def message : DecodingFault → String
  | ⟨start, some length⟩ => s!"invalid utf-8 sequence of {length} bytes from index {start}"
  | ⟨start, none⟩ => s!"incomplete utf-8 byte sequence from index {start}"

end DecodingFault

/-- How the first byte of a sequence constrains the others: the bits it gives,
the range of the second byte, and how many bytes follow the second. -/
structure Lead where
  bits : Nat
  low : UInt8
  high : UInt8
  more : Nat

/-- Overlong forms, surrogates and code points past the last one are excluded
by the range of the second byte. -/
def lead? (b : UInt8) : Option Lead :=
  if 0xC2 ≤ b && b ≤ 0xDF then some ⟨b.toNat - 0xC0, 0x80, 0xBF, 0⟩
  else if b = 0xE0 then some ⟨0, 0xA0, 0xBF, 1⟩
  else if b = 0xED then some ⟨0xD, 0x80, 0x9F, 1⟩
  else if 0xE1 ≤ b && b ≤ 0xEF then some ⟨b.toNat - 0xE0, 0x80, 0xBF, 1⟩
  else if b = 0xF0 then some ⟨0, 0x90, 0xBF, 2⟩
  else if 0xF1 ≤ b && b ≤ 0xF3 then some ⟨b.toNat - 0xF0, 0x80, 0xBF, 2⟩
  else if b = 0xF4 then some ⟨4, 0x80, 0x8F, 2⟩
  else none

structure Pending where
  start : Nat
  seen : Nat
  code : Nat
  low : UInt8
  high : UInt8
  more : Nat

def decodeFrom : Nat → Option Pending → List Char → List UInt8 → Except DecodingFault (List Char)
  | _, none, done, [] => .ok done.reverse
  | _, some p, _, [] => .error ⟨p.start, none⟩
  | position, none, done, b::bs =>
    if b < 0x80 then decodeFrom (position+1) none (Char.ofNat b.toNat :: done) bs
    else
      match lead? b with
      | none => .error ⟨position, some 1⟩
      | some l =>
        decodeFrom (position+1) (some ⟨position, 1, l.bits, l.low, l.high, l.more⟩) done bs
  | position, some p, done, b::bs =>
    if p.low ≤ b && b ≤ p.high then
      let code := p.code*64 + (b.toNat - 0x80)
      match p.more with
      | 0 => decodeFrom (position+1) none (Char.ofNat code :: done) bs
      | more+1 =>
        decodeFrom (position+1) (some ⟨p.start, p.seen+1, code, 0x80, 0xBF, more⟩) done bs
    else .error ⟨p.start, some p.seen⟩

def decode (bytes : List UInt8) : Except DecodingFault String :=
  (decodeFrom 0 none [] bytes).map String.ofList

end MatchingDependencies.Text
