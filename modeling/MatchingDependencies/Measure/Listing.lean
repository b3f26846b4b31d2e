import MatchingDependencies.Score
import Std.Data.HashMap

/-!
# Listed similarities

A listing gives the similarities of values pair by pair. Pairs that are not
listed take one score if their values are equal and another if not.
-/

set_option autoImplicit false

namespace MatchingDependencies

structure Listing where
  scores : Std.HashMap (String × String) Score
  /-- The score of equal values that are not listed, if they have one of their own. -/
  equal : Option Score
  default : Score

namespace Listing

/-- The last entry for a pair counts. -/
def ofEntries (entries : List (String × String × Score)) (equal : Option Score)
    (default : Score) : Listing :=
  ⟨.ofList (entries.map fun (left, right, s) => ((left, right), s)), equal, default⟩

def unlisted (l : Listing) (left right : String) : Score :=
  if left = right then l.equal.getD l.default else l.default

def similarity (l : Listing) (left right : String) : Score :=
  l.scores.getD (left, right) (l.unlisted left right)

end Listing

end MatchingDependencies
