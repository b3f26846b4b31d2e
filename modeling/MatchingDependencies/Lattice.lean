import MatchingDependencies.Lattice.Claims
import MatchingDependencies.Lattice.Unsupported

/-!
# The search lattice

The claims and the unsupported premises are kept together: a premise that is
marked as unsupported loses its claims at once, is not listed any more and
takes no new claims that ask for support.
-/

set_option autoImplicit false

namespace MatchingDependencies

structure Lattice where
  claims : ClaimLattice
  unsupported : UnsupportedSet

namespace Lattice

def new (width : Nat) : Lattice :=
  ⟨ClaimLattice.new width ClaimLattice.unitCost, UnsupportedSet.empty⟩

def find? (l : Lattice) (path : Path) : Option Node := l.claims.find? path

def bound (l : Lattice) (path : Path) (index : Nat) : Score := l.claims.bound path index

def setBound (l : Lattice) (path : Path) (index : Nat) (bound : Score) : Lattice :=
  { l with claims := l.claims.setBound path index bound }

def maxLevel (l : Lattice) : Nat := l.claims.maxLevel

def isUnsupported (l : Lattice) (path : Path) : Bool := l.unsupported.contains path

def isImplied (l : Lattice) (path : Path) (bound : Score) (index : Nat) : Bool × Lattice :=
  let (found, claims) := l.claims.isImplied path bound index
  (found, { l with claims })

def inheritedBounds (l : Lattice) (premise : Scores) : Scores := l.claims.inheritedBounds premise

def violated (l : Lattice) (profile : Scores) : List (Scores × Node) := l.claims.violated profile

def markChanged (l : Lattice) (path : Path) : Lattice :=
  { l with claims := l.claims.markChanged path }

def takeLowestChanged (l : Lattice) : Option Nat × Lattice :=
  let (level, claims) := l.claims.takeLowestChanged
  (level, { l with claims })

def addIfMinimal (l : Lattice) (path : Path) (bound : Score) (index : Nat) : Bool × Lattice :=
  let (added, claims) := l.claims.addIfMinimal path bound index
  (added, { l with claims })

def addIfMinimalSupported (l : Lattice) (path : Path) (bound : Score) (index : Nat) :
    Bool × Lattice :=
  if l.isUnsupported path then (false, l) else l.addIfMinimal path bound index

def markUnsupported (l : Lattice) (path : Path) : Lattice :=
  ⟨l.claims.withdraw path, l.unsupported.mark path⟩

def atLevel (l : Lattice) (level : Nat) : List (Scores × Node) :=
  (l.claims.atLevel level).filter fun (premise, _) => !l.isUnsupported premise.constraints

end Lattice

end MatchingDependencies
