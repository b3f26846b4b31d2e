import MatchingDependencies.Score.Nearest

/-!
# Scores as text

Scores are written with the fewest digits that read back. `layout` decides
how the digits are set: the plain layout never uses an exponent and writes
whole numbers without a point; the marked layout ends whole numbers in `.0`
and turns to exponents for very large and very small magnitudes.

`read?` accepts decimal numbers with an optional sign, point and exponent, and
the names of the infinite and the undefined value in any case of letters.
-/

set_option autoImplicit false

namespace MatchingDependencies

namespace Decimal

def zeros (n : Nat) : String := String.ofList (List.replicate n '0')

def positional (d : Decimal) : String :=
  let text := toString d.digits
  let behind := (-d.exponent).toNat
  if 0 ≤ d.exponent then text ++ zeros d.exponent.toNat
  else if behind < text.length then
    let before := text.length - behind
    String.ofList (text.toList.take before) ++ "." ++ String.ofList (text.toList.drop before)
  else "0." ++ zeros (behind - text.length) ++ text

def scientific (d : Decimal) : String :=
  let digits := (toString d.digits).toList
  let power := d.exponent + (digits.length : Int) - 1
  let fraction := String.ofList (digits.drop 1)
  String.ofList (digits.take 1) ++ (if fraction.isEmpty then "" else "." ++ fraction)
    ++ "e" ++ toString power

end Decimal

namespace Score

structure Layout where
  /-- What follows the digits of a whole number. -/
  wholeSuffix : String
  /-- The powers of ten of the leading digit that are written positionally; all
  of them if there are no bounds. -/
  positionalPowers : Option (Int × Int)

def plain : Layout := ⟨"", none⟩
def marked : Layout := ⟨".0", some (-4, 15)⟩

def Layout.finite (layout : Layout) (d : Decimal) : String :=
  let power := d.exponent + (Decimal.digitCount d.digits : Int) - 1
  let positional := d.positional ++ (if 0 ≤ d.exponent then layout.wholeSuffix else "")
  match layout.positionalPowers with
  | none => positional
  | some (least, greatest) =>
    if least ≤ power && power ≤ greatest then positional else d.scientific

def format (layout : Layout) (s : Score) : String :=
  if !s.isNumber then "NaN"
  else
    let sign := if s.isNegative then "-" else ""
    if s.magnitude == infinite then sign ++ "inf"
    else if s.isZero then sign ++ "0" ++ layout.wholeSuffix
    else sign ++ layout.finite s.shortest

def text (s : Score) : String := s.format plain
def markedText (s : Score) : String := s.format marked

/-! ## Reading -/

def digitValue (c : Char) : Nat := c.toNat - '0'.toNat

def leadingDigits (cs : List Char) : List Nat × List Char :=
  let (digits, rest) := cs.span Char.isDigit
  (digits.map digitValue, rest)

/-- The number that the first digits of a list make, and the digits behind
them. Halves are put together, which is much faster for long numbers than to
take up digit by digit. -/
def ofDigits (count : Nat) (digits : List Nat) : Nat × List Nat :=
  if count ≤ 1 then
    match count, digits with
    | 1, d::rest => (d, rest)
    | _, _ => (0, digits)
  else
    let (high, rest) := ofDigits (count / 2) digits
    let (low, rest) := ofDigits (count - count / 2) rest
    (high * Nat.pow 10 (count - count / 2) + low, rest)
termination_by count

/-- An exponent that has come this far takes up no more digits. -/
def greatExponent : Nat := 65536

def exponentOf (digits : List Nat) : Nat :=
  digits.foldl (fun e d => if e < greatExponent then 10*e+d else e) 0

def readExponent? : List Char → Option Int
  | [] => some 0
  | mark::rest =>
    if mark != 'e' && mark != 'E' then none
    else
      let (negative, digits) := match rest with
        | '-'::ds => (true, ds)
        | '+'::ds => (false, ds)
        | ds => (false, ds)
      match leadingDigits digits with
      | ([], _) => none
      | (ds, []) => some (if negative then -(exponentOf ds : Int) else exponentOf ds)
      | _ => none

def readDecimal? (cs : List Char) : Option Decimal :=
  let (whole, rest) := leadingDigits cs
  let (fraction, rest) := match rest with
    | '.'::behind => leadingDigits behind
    | other => ([], other)
  let digits := whole ++ fraction
  if digits.isEmpty then none
  else (readExponent? rest).map fun e => ⟨(ofDigits digits.length digits).1, e - fraction.length⟩

def readUnsigned? (cs : List Char) : Option Score :=
  let word := String.ofList (cs.map Char.toLower)
  if word = "inf" || word = "infinity" then some ⟨infinite⟩
  else if word = "nan" then some ⟨0x7FF8000000000000⟩
  else (readDecimal? cs).map ofDecimal

def read? (text : String) : Option Score :=
  match text.toList with
  | '-'::cs => (readUnsigned? cs).map negated
  | '+'::cs => readUnsigned? cs
  | cs => readUnsigned? cs

end Score

end MatchingDependencies
