import MatchingDependencies.Counting
import MatchingDependencies.Trie.Seek

/-!
# The lattice of claims

Every node of the lattice stands for a premise and holds, for each column
match, the greatest bound claimed for all record pairs that satisfy the
premise. A bound of zero claims nothing. A new lattice claims everything of
everything; the search weakens claims as records refute them. Premises are
given by their paths.

Nodes are numbered in the order they are made and are never taken away:
withdrawing a claim only sets its bound to zero. The lattice counts how many
nodes its checks for generalizations look at, and remembers the lowest level
at which a claim changed.
-/

set_option autoImplicit false

namespace MatchingDependencies

structure Node where
  number : Nat
  /-- The bounds by column match. -/
  bounds : Array Score
  deriving Inhabited

namespace Node

def bound (node : Node) (index : Nat) : Score := node.bounds.getD index 0

def claims (node : Node) (bound : Score) (index : Nat) : Bool := bound ≤ node.bound index

def claimsAny (node : Node) : Bool := node.bounds.any (!·.isZero)

def withBound (index : Nat) (bound : Score) (node : Node) : Node :=
  { node with bounds := node.bounds.setIfInBounds index bound }

def fallsShortFrom (bounds : Array Score) : (first : Nat) → Scores → Bool
  | _, [] => false
  | first, s::profile =>
    match bounds[first]? with
    | some b => s < b || fallsShortFrom bounds (first+1) profile
    | none => false

def violatedBy (profile : Scores) (node : Node) : Bool := fallsShortFrom node.bounds 0 profile

end Node

abbrev LevelCost := Nat → Score → Nat

structure ClaimLattice where
  width : Nat
  cost : LevelCost
  root : Node
  branches : Branches Node
  size : Nat
  maxLevel : Nat
  lowestChanged : Option Nat
  visited : Nat

namespace ClaimLattice

def new (width : Nat) (cost : LevelCost) : ClaimLattice :=
  { width, cost
    root := ⟨0, Array.replicate width 1⟩
    branches := .none
    size := 1
    maxLevel := 0
    lowestChanged := none
    visited := 0 }

def unitCost : LevelCost := fun _ _ => 1

def levelOf (l : ClaimLattice) (path : Path) : Nat := sumOver (fun (c, t) => l.cost c t) path

def find? (l : ClaimLattice) (path : Path) : Option Node := l.branches.find? path l.root

def bound (l : ClaimLattice) (path : Path) (index : Nat) : Score :=
  match l.find? path with
  | some node => node.bound index
  | none => 0

def modify (l : ClaimLattice) (path : Path) (f : Node → Node) : ClaimLattice :=
  match path with
  | [] => { l with root := f l.root }
  | path => { l with branches := l.branches.modify f path }

def setBound (l : ClaimLattice) (path : Path) (index : Nat) (bound : Score) : ClaimLattice :=
  l.modify path (Node.withBound index bound)

def setBounds (l : ClaimLattice) (path : Path) (bounds : Scores) : ClaimLattice :=
  l.modify path fun node => { node with bounds := bounds.toArray }

/-- Withdraws every claim of a premise. The node stays. -/
def withdraw (l : ClaimLattice) (path : Path) : ClaimLattice :=
  l.modify path fun node => { node with bounds := node.bounds.map fun _ => 0 }

def reached (l : ClaimLattice) (v : Scores) : List (Scores × Node) :=
  let empty := Scores.zeros l.width
  (empty, l.root) :: l.branches.reached (Scores.meetsAt v.toArray) empty

/-! ## Looking for generalizations -/

def visiting (l : ClaimLattice) (count : Nat) : ClaimLattice :=
  { l with visited := l.visited + count }

/-- Whether the premise or a generalization of it has a node that claims at
least the bound. -/
def isImplied (l : ClaimLattice) (path : Path) (bound : Score) (index : Nat) :
    Bool × ClaimLattice :=
  let test := fun node : Node => node.claims bound index
  let sought := (look test l.root 0).orElse (l.branches.seek path.meets test)
  (sought.found, l.visiting sought.count)

def ancestors (l : ClaimLattice) (premise : Scores) : List Node :=
  let path := premise.constraints
  let below := l.branches.coveredBeside (Scores.meetsAt premise.toArray) (some path)
  if path.isEmpty then below else l.root :: below

/-- The larger of two bounds; one that is no number raises nothing. -/
def raise (b s : Score) : Score := if b < s then s else b

def raiseBounds (bounds : Array Score) (node : Node) : Array Score :=
  bounds.zipWith raise node.bounds

/-- The greatest bounds claimed by other premises that generalize a premise. -/
def inheritedBounds (l : ClaimLattice) (premise : Scores) : Scores :=
  ((l.ancestors premise).foldl raiseBounds (Array.replicate l.width 0)).toList

/-! ## Changing claims -/

def noteChange (l : ClaimLattice) (level : Nat) : ClaimLattice :=
  { l with lowestChanged := some ((l.lowestChanged.map (min level)).getD level) }

def markChanged (l : ClaimLattice) (path : Path) : ClaimLattice := l.noteChange (l.levelOf path)

def takeLowestChanged (l : ClaimLattice) : Option Nat × ClaimLattice :=
  (l.lowestChanged, { l with lowestChanged := none })

def claim (l : ClaimLattice) (path : Path) (bound : Score) (index : Nat) : ClaimLattice :=
  match path with
  | [] => { l with root := l.root.withBound index bound }
  | path =>
    let make := fun number => ⟨number, Array.replicate l.width 0⟩
    { l with
      branches := l.branches.place make (Node.withBound index bound) l.size path
      size := l.size + (path.length - l.branches.depth path) }

/-- Claims a bound for a premise unless the premise or a generalization
already claims as much. -/
def addIfMinimal (l : ClaimLattice) (path : Path) (bound : Score) (index : Nat) :
    Bool × ClaimLattice :=
  let test := fun node : Node => node.claims bound index
  let sought := l.branches.seekInsertion path.meets test path l.root 0
  let l := l.visiting sought.count
  if sought.found then (false, l)
  else
    let level := l.levelOf path
    let l := l.claim path bound index
    (true, { l with maxLevel := max l.maxLevel level }.noteChange level)

/-! ## Listings -/

def atLevel (l : ClaimLattice) (level : Nat) : List (Scores × Node) :=
  let all :=
    if level = 0 then [(Scores.zeros l.width, l.root)]
    else l.branches.atLevel l.cost level (Scores.zeros l.width)
  all.filter fun (_, node) => node.claimsAny

def violated (l : ClaimLattice) (profile : Scores) : List (Scores × Node) :=
  (l.reached profile).filter fun (_, node) => node.violatedBy profile

end ClaimLattice

end MatchingDependencies
