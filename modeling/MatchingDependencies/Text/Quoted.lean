import MatchingDependencies.Text.Printable

/-!
# Quoted text

Text inside a message stands between double quotes. Quotes and backslashes in
it are marked with a backslash, the common controls have letters of their own,
and every other hidden character is written by its code point.
-/

set_option autoImplicit false

namespace MatchingDependencies.Text

def hexadecimal (n : Nat) : String := String.ofList (Nat.toDigits 16 n)

def quotedChar (c : Char) : String :=
  match c with
  | '"' => "\\\""
  | '\\' => "\\\\"
  | '\n' => "\\n"
  | '\t' => "\\t"
  | '\r' => "\\r"
  | '\x00' => "\\0"
  | _ => if isHidden c then "\\u\x7b" ++ hexadecimal c.toNat ++ "\x7d" else String.singleton c

def quoted (text : String) : String :=
  "\"" ++ String.join (text.toList.map quotedChar) ++ "\""

end MatchingDependencies.Text
