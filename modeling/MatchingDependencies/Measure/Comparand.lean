import MatchingDependencies.Score.Text
import MatchingDependencies.Text.Blank

/-!
# Values to compare

A value is compared with many others, and a measure may read its characters,
its words or a number off it. Each of these is read when it is first asked
for, and kept.
-/

set_option autoImplicit false

namespace MatchingDependencies

structure Comparand where
  text : String
  chars : Thunk (List Char)
  words : Thunk (List (List Char))
  /-- The finite number the value holds, blanks around it apart. -/
  number : Thunk (Option Float)
  /-- The number that the whole value is read as. -/
  float : Thunk Float

namespace Comparand

def number? (text : String) : Option Float :=
  match Score.read? (String.ofList (Text.trimmed text.toList)) with
  | some s => if s.magnitude < Score.infinite then some s.toFloat else none
  | none => none

def floatOf (text : String) : Float :=
  match Score.read? text with
  | some s => s.toFloat
  | none => Float.ofBits 0x7FF8000000000000

def ofText (text : String) : Comparand :=
  { text
    chars := Thunk.mk fun _ => text.toList
    words := Thunk.mk fun _ => Text.words text.toList
    number := Thunk.mk fun _ => number? text
    float := Thunk.mk fun _ => floatOf text }

end Comparand

end MatchingDependencies
