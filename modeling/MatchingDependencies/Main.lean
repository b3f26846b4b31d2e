import MatchingDependencies.CommandLine

/-!
# The program

Reads the files that the arguments name and prints the report.
-/

set_option autoImplicit false

namespace MatchingDependencies.CommandLine

def systemFault : IO.Error → SystemFault
  | .noFileOrDirectory .. => .missing
  | .permissionDenied .. => .denied
  | .inappropriateType _ code _ =>
    if code.toNat = SystemFault.isFolder.code then .isFolder else .notFolder
  | .invalidArgument .. => .nameTooLong
  | _ => .missing

/-- Reads a file as a whole. A folder shows when it is read. -/
def readFile (path : String) : IO Opened := do
  try
    let bytes ← IO.FS.readBinFile path
    return .content bytes.toList
  catch e =>
    match systemFault e with
    | .isFolder => return .folder
    | fault => return .refused fault

def perform (arguments : List String) : IO UInt32 := do
  let files ← (pathsOf arguments).mapM fun path => do return (path, ← readFile path)
  let report := run arguments fun path => (files.lookup path).getD (.refused .missing)
  for line in report.output do IO.println line
  if let some complaint := report.complaint then IO.eprintln complaint
  return report.status.toUInt32

end MatchingDependencies.CommandLine

def main (arguments : List String) : IO UInt32 :=
  MatchingDependencies.CommandLine.perform arguments
