import MatchingDependencies.CommandLine.Diagnosis
import MatchingDependencies.Discovery

/-!
# The command line

The program reads its arguments, makes the measures, opens the left and then
the right table, and prints one line for every dependency it finds. The first
thing that goes wrong is reported and nothing is printed then.
-/

set_option autoImplicit false

namespace MatchingDependencies.CommandLine

/-- What the program leaves behind: its exit status, the lines it prints, and
what it says on the error output. -/
structure Report where
  status : Nat
  output : List String
  complaint : Option String

def versionLine : String := "hymd 0.1.0"

def usage : String := "Usage: hymd [OPTIONS] --left <LEFT>"

def Stop.report : Stop → Report
  | .help => ⟨0, [usage], none⟩
  | .version => ⟨0, [versionLine], none⟩
  | .misuse => ⟨2, [], some usage⟩
  | .invalidValue o value why => ⟨2, [], some (invalidValueMessage o value why)⟩

def Command.paths (c : Command) : List String := c.left :: c.right.toList

/-! ## Running a command -/

def request (m : MatchArgument) : Except RequestError MatchRequest :=
  (Measure.byName m.measure m.cutoff).map fun measure => ⟨m.left, m.right, measure⟩

def Command.configuration (c : Command) : Except String Configuration := do
  let requests ← (c.columnMatches.mapM request).mapError requestErrorShown
  return {
    nullEqualsNull := c.nullEqualsNull
    minSupport := c.minSupport
    disjoint := c.disjoint
    requests }

def Command.openTable (c : Command) (openPath : String → Opened) (path : String) :
    Except String RowSource :=
  match openPath path with
  | .refused fault => .error fault.shown
  | .folder => .error (inputErrorShown .unreadable)
  | .content bytes =>
    ((Delimited.Source.open? (tableName path) c.delimiter c.hasHeader (.whole bytes)).map
      RowSource.delimited).mapError inputErrorShown

def lines (d : Discovery) : Except String (List String) :=
  match d.execute with
  | .error e => .error (failureShown (.request e))
  | .ok none => .error "StepsExhausted"
  | .ok (some o) => .ok (o.dependencies.map (Dependency.text d.labels))

def Command.execute (c : Command) (openPath : String → Opened) : Except String (List String) := do
  let configuration ← c.configuration
  let left ← c.openTable openPath c.left
  let right ← c.right.mapM (c.openTable openPath)
  let d ← (Discovery.load configuration left right).mapError failureShown
  lines d

def Command.report (c : Command) (openPath : String → Opened) : Report :=
  match c.execute openPath with
  | .ok output => ⟨0, output, none⟩
  | .error why => ⟨1, [], some ("Error: " ++ why)⟩

def run (arguments : List String) (openPath : String → Opened) : Report :=
  match readArguments arguments with
  | .ok c => c.report openPath
  | .error s => s.report

def pathsOf (arguments : List String) : List String :=
  match readArguments arguments with
  | .ok c => c.paths
  | .error _ => []

end MatchingDependencies.CommandLine
