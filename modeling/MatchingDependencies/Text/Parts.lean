/-!
# Parts of a text

A separator cuts a text into parts. There is one part more than there are
separators, and parts may be empty.
-/

set_option autoImplicit false

namespace MatchingDependencies.Text

def cut (separator : Char) : List Char → List (List Char)
  | [] => [[]]
  | c::cs =>
    if c = separator then [] :: cut separator cs
    else
      match cut separator cs with
      | [] => [[c]]
      | part::parts => (c::part) :: parts

def parts (separator : Char) (text : String) : List String :=
  (cut separator text.toList).map String.ofList

end MatchingDependencies.Text
