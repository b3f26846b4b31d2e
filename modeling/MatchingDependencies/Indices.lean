/-!
# Sets of column matches

A set of column matches is an increasing list of their indices.
-/

set_option autoImplicit false

namespace MatchingDependencies

abbrev Indices := List Nat

namespace Indices

def insert (i : Nat) : Indices → Indices
  | [] => [i]
  | j::js => if i < j then i::j::js else if i = j then j::js else j :: insert i js

def ofList (is : List Nat) : Indices := is.foldl (fun set i => set.insert i) []

def union (a b : Indices) : Indices := b.foldl (fun set i => set.insert i) a

def diff (a b : Indices) : Indices := a.filter fun i => !b.contains i

end Indices

end MatchingDependencies
