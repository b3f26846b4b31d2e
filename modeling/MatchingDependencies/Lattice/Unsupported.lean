import MatchingDependencies.Trie.Seek

/-!
# Unsupported premises

A tighter premise is satisfied by fewer record pairs. So once too few pairs
satisfy a premise, too few satisfy any specialization of it, and it is enough
to store the premises that were found unsupported themselves.
-/

set_option autoImplicit false

namespace MatchingDependencies

structure UnsupportedSet where
  root : Bool
  branches : Branches Bool
  deriving Inhabited

namespace UnsupportedSet

def empty : UnsupportedSet := ⟨false, .none⟩

/-- The premise or a generalization of it was marked. -/
def contains (u : UnsupportedSet) (path : Path) : Bool :=
  u.root || (u.branches.seek path.meets id 0).found

def mark (u : UnsupportedSet) (path : Path) : UnsupportedSet :=
  match path with
  | [] => { u with root := true }
  | path => { u with branches := u.branches.place (fun _ => false) (fun _ => true) 0 path }

end UnsupportedSet

end MatchingDependencies
