import MatchingDependencies.CommandLine.Arguments
import MatchingDependencies.CommandLine.Opening
import MatchingDependencies.Failure
import MatchingDependencies.Text.ControlSequence

/-!
# Diagnosis

Failures are shown by their structure: the name of the kind with its parts,
between parentheses, or between braces if the parts have names.
-/

set_option autoImplicit false

namespace MatchingDependencies.CommandLine

open Text

def wrapped (name part : String) : String := name ++ "(" ++ part ++ ")"

def labelled (name : String) (fields : List (String × String)) : String :=
  let parts := fields.map fun (label, part) => label ++ ": " ++ part
  name ++ " \x7b " ++ ", ".intercalate parts ++ " \x7d"

namespace SystemFault

def code : SystemFault → Nat
  | .missing => 2
  | .denied => 13
  | .notFolder => 20
  | .isFolder => 21
  | .nameTooLong => 36

def kind : SystemFault → String
  | .missing => "NotFound"
  | .denied => "PermissionDenied"
  | .notFolder => "NotADirectory"
  | .isFolder => "IsADirectory"
  | .nameTooLong => "InvalidFilename"

def message : SystemFault → String
  | .missing => "No such file or directory"
  | .denied => "Permission denied"
  | .notFolder => "Not a directory"
  | .isFolder => "Is a directory"
  | .nameTooLong => "File name too long"

def shown (f : SystemFault) : String :=
  labelled "Os" [("code", toString f.code), ("kind", f.kind), ("message", quoted f.message)]

end SystemFault

def optionShown : Option Nat → String
  | some n => wrapped "Some" (toString n)
  | none => "None"

def decodingFaultShown (f : DecodingFault) : String :=
  labelled "Utf8Error" [("valid_up_to", toString f.start), ("error_len", optionShown f.length)]

def requestErrorShown : RequestError → String
  | .minSimilarityOutOfRange measure value =>
    labelled "MinSimilarityOutOfRange" [("measure", quoted measure), ("value", value.markedText)]
  | .similarityOutOfRange measure left right value =>
    labelled "SimilarityOutOfRange" [("measure", quoted measure), ("left", quoted left),
      ("right", quoted right), ("value", value.markedText)]
  | .unknownColumn table column =>
    labelled "UnknownColumn" [("table", quoted table), ("column", quoted column)]
  | .columnIndexOutOfRange table index count =>
    labelled "ColumnIndexOutOfRange" [("table", quoted table), ("index", toString index),
      ("count", toString count)]
  | .noColumnMatches => "NoColumnMatches"
  | .unknownMeasure name => wrapped "UnknownMeasure" (quoted name)

/-- The files of the command line are read as a whole, so only a folder cannot
be read. -/
def inputErrorShown : InputError → String
  | .emptyTable table => wrapped "EmptyDataset" (quoted table)
  | .unreadable => wrapped "Io" SystemFault.isFolder.shown
  | .invalidText line fault =>
    labelled "Utf8" [("line", toString line), ("source", decodingFaultShown fault)]

def failureShown : Failure → String
  | .request e => wrapped "Config" (requestErrorShown e)
  | .input e => wrapped "Data" (inputErrorShown e)

/-! ## Messages of the argument reader -/

def invalidValueMessage (o : ValueOption) (value : String) (why : Option String) : String :=
  "error: invalid value '" ++ ControlSequence.printed value ++ "' for '--" ++ o.name ++ " <"
    ++ o.placeholder ++ ">'" ++ (match why with
      | some why => ": " ++ why
      | none => "")

end MatchingDependencies.CommandLine
