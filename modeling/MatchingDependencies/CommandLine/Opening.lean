import MatchingDependencies.Text.Parts

/-!
# Opening files

What can come of opening the file at a path. A folder can be opened, but there
is nothing to read in it.

`FileTree` stands for a system of files. Paths are walked part by part, from
the top or from the working directory.
-/

set_option autoImplicit false

namespace MatchingDependencies.CommandLine

open Text

inductive SystemFault where
  | missing
  | denied
  | notFolder
  | isFolder
  | nameTooLong
  deriving DecidableEq

inductive Opened where
  | content (bytes : List UInt8)
  | folder
  | refused (fault : SystemFault)

/-- The name of a file without what stands behind its last dot. A dot at the
start of the name does not count. -/
def fileStem (name : String) : String :=
  let behind := name.toList.reverse.dropWhile (· != '.')
  match behind with
  | [] => name
  | ['.'] => name
  | _::before => String.ofList before.reverse

def tableName (path : String) : String := fileStem ((parts '/' path).getLastD path)

/-! ## A tree of files -/

abbrev Place := List String

/-- The files and folders that are known. A folder is also known by what is in
it. -/
structure FileTree where
  files : List (Place × List UInt8)
  folders : List Place

namespace FileTree

/-- The working directory is a temporary folder. Its name is empty, so no path
reaches it by name. -/
def workingDirectory : Place := ["tmp", ""]

def systemFolders : List Place :=
  ["bin", "dev", "etc", "home", "lib", "media", "mnt", "opt", "proc", "root", "run", "sbin", "srv",
    "sys", "tmp", "usr", "var"].map ([·])

def nullDevice : Place × List UInt8 := (["dev", "null"], [])

def route (path : String) : Place × List String :=
  match parts '/' path with
  | ""::names => ([], names)
  | names => (workingDirectory, names)

/-- One part of a path further. An empty part and a dot stay, two dots lead to
the folder that holds the place, and the top holds itself. -/
def onward (place : Place) (name : String) : Place :=
  if name = "" || name = "." then place
  else if name = ".." then place.dropLast
  else place ++ [name]

def placeOf (path : String) : Place :=
  let (start, names) := route path
  names.foldl onward start

def ofFiles (files : List (String × List UInt8)) : FileTree :=
  { files := nullDevice :: files.map fun (path, bytes) => (placeOf path, bytes)
    folders := workingDirectory :: systemFolders }

def file? (tree : FileTree) (place : Place) : Option (List UInt8) :=
  (tree.files.reverse.find? fun (p, _) => p == place).map (·.2)

def hasFolder (tree : FileTree) (place : Place) : Bool :=
  tree.folders.any place.isPrefixOf || tree.files.any fun (p, _) => place.isPrefixOf p

def look (tree : FileTree) (place : Place) : Opened :=
  match tree.file? place with
  | some bytes => .content bytes
  | none => if tree.hasFolder place then .folder else .refused .missing

def longestName : Nat := 255

def longestPath : Nat := 4095

/-- Goes on along a path from a place. Every part but the last must lead to a
folder. -/
def walk (tree : FileTree) (place : Place) : List String → Opened
  | [] => tree.look place
  | name::names =>
    match tree.look place with
    | .refused fault => .refused fault
    | .content _ => .refused .notFolder
    | .folder =>
      if longestName < name.utf8ByteSize then .refused .nameTooLong
      else walk tree (onward place name) names

def openPath (tree : FileTree) (path : String) : Opened :=
  if longestPath < path.utf8ByteSize then .refused .nameTooLong
  else
    let (start, names) := route path
    tree.walk start names

end FileTree

end MatchingDependencies.CommandLine
