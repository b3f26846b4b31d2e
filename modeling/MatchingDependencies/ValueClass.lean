/-!
# Classes of values

A missing value and an empty value never reach a measure.
-/

set_option autoImplicit false

namespace MatchingDependencies

inductive ValueClass where
  | null
  | empty
  | regular
  deriving DecidableEq, Repr

def nullText : String := "NULL"

def ValueClass.of (value : String) : ValueClass :=
  if value = nullText then .null else if value = "" then .empty else .regular

end MatchingDependencies
