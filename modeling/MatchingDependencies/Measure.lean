import MatchingDependencies.Failure
import MatchingDependencies.Measure.Comparand
import MatchingDependencies.Measure.EditDistance
import MatchingDependencies.Measure.Listing

/-!
# Similarity measures

A measure compares two values that are neither missing nor empty. Its cutoff
is the similarity below which values count as not similar at all. A measure
may compare one left value with many right values at once, if what it says
about one of them depends on the others; it answers one score for each.
-/

set_option autoImplicit false

namespace MatchingDependencies

structure Measure where
  name : String
  cutoff : Score
  similarity : Comparand → Comparand → Score
  row : Comparand → List Comparand → List Score
  /-- Scores outside the range of similarities are refused. -/
  checksRange : Bool
  row_length : ∀ left rights, (row left rights).length = rights.length

namespace Measure

def pairwise (name : String) (cutoff : Score) (checksRange : Bool)
    (similarity : Comparand → Comparand → Score) : Measure :=
  { name, cutoff, similarity, checksRange
    row := fun left rights => rights.map (similarity left)
    row_length := by simp }

def checkCutoff (name : String) (cutoff : Score) : Except RequestError Unit :=
  if cutoff.inUnit then .ok () else .error (.minSimilarityOutOfRange name cutoff)

def ofFunction (name : String) (cutoff : Score) (checksRange : Bool)
    (similarity : Comparand → Comparand → Score) : Except RequestError Measure := do
  checkCutoff name cutoff
  return pairwise name cutoff checksRange similarity

/-! ## Equality -/

def equalitySimilarity (left right : Comparand) : Score :=
  if left.text = right.text then 1 else 0

def equality (cutoff : Score) : Except RequestError Measure :=
  ofFunction "equality" cutoff false equalitySimilarity

/-! ## Edit distance -/

def editSimilarity (left right : Comparand) : Score :=
  Score.ofFloat (EditDistance.similarity left.chars.get right.chars.get)

def levenshtein (cutoff : Score) : Except RequestError Measure :=
  ofFunction "levenshtein" cutoff false editSimilarity

/-! ## Best words -/

/-- The larger of two numbers; one that is undefined yields to the other. -/
def largerFloat (a b : Float) : Float := if a < b || a.isNaN then b else a

def bestWord (word : List Char) (others : List (List Char)) : Float :=
  (others.map (EditDistance.similarity word)).foldl largerFloat 0.0

/-- The mean over the words of the left value of their similarity to the best
word of the right value. -/
def wordSimilarity (left right : Comparand) : Score :=
  let words := left.words.get
  let others := right.words.get
  if words.isEmpty || others.isEmpty then 0
  else
    let total := (words.map fun word => bestWord word others).foldl (· + ·) 0.0
    Score.ofFloat (total / EditDistance.lengthToFloat words.length)

def mongeElkan (cutoff : Score) : Except RequestError Measure :=
  ofFunction "monge_elkan" cutoff false wordSimilarity

/-! ## Distance of numbers -/

def distance? : (left right : Option Float) → Option Float
  | some l, some r => some (l - r).abs
  | _, _ => none

/-- Without a positive greatest distance only equal numbers are similar. -/
def numberSimilarity (maxDistance : Option Float) (left right : Comparand) : Score :=
  match distance? left.number.get right.number.get with
  | none => 0
  | some d =>
    match maxDistance with
    | some m =>
      if 0.0 < m then Score.ofFloat (largerFloat (1.0 - d / m) 0.0)
      else if d == 0.0 then 1 else 0
    | none => if d == 0.0 then 1 else 0

/-- Distances are taken relative to the greatest one in the row. -/
def relativeRow (left : Comparand) (rights : List Comparand) : List Score :=
  let distances := rights.map fun right => distance? left.number.get right.number.get
  let greatest := (distances.filterMap id).foldl largerFloat 0.0
  distances.map fun
    | none => 0
    | some d => if greatest == 0.0 then 1 else Score.ofFloat (1.0 - d / greatest)

def numberMeasure (cutoff : Score) (maxDistance : Option Float) : Measure :=
  match maxDistance with
  | some _ => pairwise "number" cutoff false (numberSimilarity maxDistance)
  | none =>
    { name := "number"
      cutoff
      checksRange := false
      similarity := numberSimilarity none
      row := relativeRow
      row_length := by simp [relativeRow] }

def number (cutoff : Score) (maxDistance : Option Float) : Except RequestError Measure := do
  checkCutoff "number" cutoff
  return numberMeasure cutoff maxDistance

/-! ## By name -/

def byName (name : String) (cutoff : Score) : Except RequestError Measure :=
  match name with
  | "equality" => equality cutoff
  | "levenshtein" => levenshtein cutoff
  | "monge_elkan" => mongeElkan cutoff
  | "number" => number cutoff none
  | _ => .error (.unknownMeasure name)

/-! ## Given functions -/

def listed (l : Listing) (left right : Comparand) : Score := l.similarity left.text right.text

def ratio (left right : Comparand) : Score :=
  let a := left.float.get
  let b := right.float.get
  Score.ofFloat (if a < b then a / b else b / a)

def closeness (left right : Comparand) : Score :=
  Score.ofFloat (1.0 / (1.0 + (left.float.get - right.float.get).abs))

def sameLength (left right : Comparand) : Score :=
  if left.text.utf8ByteSize = right.text.utf8ByteSize then 1 else 0

end Measure

end MatchingDependencies
