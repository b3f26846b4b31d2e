import MatchingDependencies.Search

/-!
# Matching dependencies

A matching dependency says that record pairs which are similar enough in some
column matches are similar in another one: whoever reaches every threshold of
the premise reaches the bound of the conclusion.
-/

set_option autoImplicit false

namespace MatchingDependencies

structure MatchLabel where
  measure : String
  leftTable : String
  leftColumn : String
  rightTable : String
  rightColumn : String
  deriving Inhabited

def MatchLabel.text (l : MatchLabel) : String :=
  l.measure ++ "(" ++ l.leftTable ++ ":" ++ l.leftColumn ++ ", " ++ l.rightTable ++ ":"
    ++ l.rightColumn ++ ")"

/-- What a premise demands in one column match. Any threshold above the
disproved bound and up to the threshold is reached by the same pairs. -/
structure Condition where
  columnMatch : Nat
  threshold : Score
  disproved : Option Score

structure Dependency where
  conditions : List Condition
  index : Nat
  bound : Score

namespace Dependency

def premise (m : Dependency) : Scores := m.conditions.map (·.threshold)

def cardinality (m : Dependency) : Nat := m.premise.cardinality

def conditionText (labels : List MatchLabel) (c : Condition) : String :=
  (labels.getD c.columnMatch default).text ++ ">=" ++ c.threshold.text ++
    match c.disproved with
    | some s => "(>" ++ s.text ++ ")"
    | none => ""

def text (labels : List MatchLabel) (m : Dependency) : String :=
  let conditions := m.conditions.filter fun c => !c.threshold.isZero
  let inner := " |".intercalate (conditions.map fun c => " " ++ conditionText labels c)
  "[" ++ inner ++ (if conditions.isEmpty then "" else " ") ++ "] -> "
    ++ (labels.getD m.index default).text ++ ">=" ++ m.bound.text

def conditionsOf (d : Dataset) (premise : Scores) : List Condition :=
  premise.zipIdx.map fun (t, i) => ⟨i, t, (d.comparison i).previousBoundary? t⟩

def ofNode (d : Dataset) (premise : Scores) (node : Node) : List Dependency :=
  (node.bounds.toList.zipIdx.filter fun (b, _) => !b.isZero).map fun (b, i) =>
    ⟨conditionsOf d premise, i, b⟩

/-- All claims of a lattice, level by level, in trie order, and by column match. -/
def ofLattice (d : Dataset) (l : Lattice) : List Dependency :=
  (List.range (l.maxLevel+1)).flatMap fun level =>
    (l.atLevel level).flatMap fun (premise, node) => ofNode d premise node

end Dependency

end MatchingDependencies
