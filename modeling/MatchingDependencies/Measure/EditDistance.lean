import MatchingDependencies.Score

/-!
# Edit distance

The edit distance of two texts is the least number of characters to insert,
delete or replace that turns one into the other. It is computed row by row: a
row holds the distances of the characters read so far to every beginning of
the second text.

Divided by the longer length and taken from one, it is a similarity.
-/

set_option autoImplicit false

namespace MatchingDependencies.EditDistance

/-- The cells of the row after one more character, from left to right. Each
takes the cheapest way from its neighbours above, to the left and between. -/
def cells (c : Char) : List Char → (corner : Nat) → (above : List Nat) → (left : Nat) → List Nat
  | d::ds, corner, up::above, left =>
    let cell := min (min (up+1) (left+1)) (if c = d then corner else corner+1)
    cell :: cells c ds up above cell
  | _, _, _, _ => []

def rowAfter (text : List Char) (row : List Nat) (c : Char) : List Nat :=
  match row with
  | [] => []
  | first::above => (first+1) :: cells c text first above (first+1)

def distance (a b : List Char) : Nat :=
  (a.foldl (rowAfter b) (List.range (b.length+1))).getLastD 0

def lengthToFloat (n : Nat) : Float := n.toUInt64.toFloat

def similarity (a b : List Char) : Float :=
  let longest := max a.length b.length
  if longest = 0 then 1.0 else 1.0 - lengthToFloat (distance a b) / lengthToFloat longest

end MatchingDependencies.EditDistance
