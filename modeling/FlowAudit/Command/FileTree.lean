import FlowAudit.Command.Files

set_option autoImplicit false

/-!
Trees of files in memory. A path is a row of steps, cut at slashes, from the root or from the
working directory. An empty step and `.` stay where they are and `..` goes up; every step needs a
directory to start from. A directory exists if it is listed or if something is inside it.
-/
namespace FlowAudit.Command

structure FileTree where
  files : List (List String × ByteArray)
  directories : List (List String) := []
  workingDirectory : List String := []

namespace FileTree

def isDirectory (tree : FileTree) (place : List String) : Bool :=
  place.isEmpty || tree.directories.any (place.isPrefixOf ·) ||
    tree.files.any fun file => place.isPrefixOf file.1 && place.length < file.1.length

def bytes? (tree : FileTree) (place : List String) : Option ByteArray :=
  tree.files.lookup place

/-- Why there is no directory at a place. -/
def noDirectory (tree : FileTree) (place : List String) : FileError :=
  if (tree.bytes? place).isSome then .notDirectory else .missing

def move (place : List String) (step : String) : List String :=
  if step = "" ∨ step = "." then place
  else if step = ".." then place.dropLast
  else place ++ [step]

/-- The place that the steps lead to, whatever there is. -/
def follow (tree : FileTree) (place : List String) : List String → Except FileError (List String)
  | [] => .ok place
  | step :: rest =>
      if tree.isDirectory place then follow tree (move place step) rest
      else .error (tree.noDirectory place)

def steps (path : String) : List String :=
  (path.toList.splitOn '/').map String.ofList

def start (tree : FileTree) (path : String) : List String :=
  if path.toList.head? = some '/' then [] else tree.workingDirectory

def locate (tree : FileTree) (path : String) : Except FileError (List String) :=
  tree.follow (tree.start path) (steps path)

/-- The names of the files directly inside a place. -/
def names (tree : FileTree) (place : List String) : List String :=
  tree.files.filterMap fun file =>
    match file.1.getLast? with
    | some name => if file.1.dropLast = place then some name else none
    | none => none

/-- What there is at a place. -/
def findingAt (tree : FileTree) (place : List String) : Finding :=
  let isDirectory := tree.isDirectory place
  { isDirectory
    bytes :=
      match tree.bytes? place with
      | some bytes => .ok bytes
      | none => .error (if isDirectory then .isDirectory else .missing)
    names := if isDirectory then .ok (tree.names place) else .error (tree.noDirectory place) }

def finding (tree : FileTree) (path : String) : Finding :=
  match tree.locate path with
  | .ok place => tree.findingAt place
  | .error cause => { bytes := .error cause, names := .error cause }

/-- The place that a new or changed file takes. Its directory has to exist, and a path that can
only mean a directory names no file. -/
def target (tree : FileTree) (path : String) : Except FileError (List String) :=
  let trailing := (steps path).reverse.takeWhile (· = "")
  match (steps path).reverse.dropWhile (· = "") with
  | [] => .error .isDirectory
  | name :: before =>
      match tree.follow (tree.start path) (before.reverse ++ [""]) with
      | .error cause => .error cause
      | .ok directory =>
          let place := directory ++ [name]
          if !trailing.isEmpty || name = "." || name = ".." || tree.isDirectory place then
            .error .isDirectory
          else .ok place

/-- The tree after bytes were written to a path. -/
def write (tree : FileTree) (path : String) (bytes : ByteArray) : Except FileError FileTree :=
  (tree.target path).map fun place =>
    { tree with files := (place, bytes) :: tree.files.filter fun file => file.1 != place }

end FileTree

end FlowAudit.Command
