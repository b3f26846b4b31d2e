import MatchingDependencies.Score.Text
import MatchingDependencies.Text.Quoted
import MatchingDependencies.Text.Utf8

/-!
# Failures

What can be wrong with the request for a search, and what can be wrong with
the tables it is to run on. Every cause has one message.
-/

set_option autoImplicit false

namespace MatchingDependencies

open Text

inductive RequestError where
  | minSimilarityOutOfRange (measure : String) (value : Score)
  | similarityOutOfRange (measure left right : String) (value : Score)
  | unknownColumn (table column : String)
  | columnIndexOutOfRange (table : String) (index count : Nat)
  | noColumnMatches
  | unknownMeasure (name : String)

inductive InputError where
  | emptyTable (table : String)
  | unreadable
  | invalidText (line : Nat) (fault : DecodingFault)

inductive Failure where
  | request (error : RequestError)
  | input (error : InputError)

def RequestError.message : RequestError → String
  | .minSimilarityOutOfRange measure value =>
    "minimum similarity " ++ value.text ++ " for measure " ++ measure ++ " is outside [0, 1]"
  | .similarityOutOfRange measure left right value =>
    "measure " ++ measure ++ " returned similarity " ++ value.text ++ " for " ++ quoted left
      ++ " and " ++ quoted right
  | .unknownColumn table column => "table " ++ table ++ " has no column named " ++ quoted column
  | .columnIndexOutOfRange table index count =>
    "column index " ++ toString index ++ " is out of range for table " ++ table ++ " with "
      ++ toString count ++ " columns"
  | .noColumnMatches => "no column matches were given and the tables share no column names"
  | .unknownMeasure name => "unknown similarity measure " ++ quoted name

def InputError.message : InputError → String
  | .emptyTable table => "table " ++ table ++ " contains no records"
  | .unreadable => "I/O error reading table data"
  | .invalidText line _ => "invalid UTF-8 on line " ++ toString line

def Failure.message : Failure → String
  | .request error => error.message
  | .input error => error.message

end MatchingDependencies
