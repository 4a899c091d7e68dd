set_option autoImplicit false

/-!
The files of a run: what there is at each path that it names. The run looks at nothing else.
-/
namespace FlowAudit.Command

/-- Why a path could not be used. -/
inductive FileError where
  | missing
  | notDirectory
  | isDirectory
  | notUnicode
  | other (text : String)
  deriving DecidableEq, Repr

def FileError.message : FileError → String
  | missing => "No such file or directory (os error 2)"
  | notDirectory => "Not a directory (os error 20)"
  | isDirectory => "Is a directory (os error 21)"
  | notUnicode => "stream did not contain valid UTF-8"
  | other text => text

/-- What there is at a path. -/
structure Finding where
  bytes : Except FileError ByteArray := .error .missing
  isDirectory : Bool := false
  /-- The names of the regular files directly inside, in any order. -/
  names : Except FileError (List String) := .error .missing

abbrev Files := String → Finding

/-- The path of a file inside a directory. -/
def child (directory name : String) : String :=
  if directory.toList.getLast? = some '/' then directory ++ name else directory ++ "/" ++ name

namespace Files

/-- The text of a file, which has to be UTF-8 throughout. -/
def text (files : Files) (path : String) : Except FileError (List Char) :=
  match (files path).bytes with
  | .error cause => .error cause
  | .ok bytes =>
      match String.fromUTF8? bytes with
      | some text => .ok text.toList
      | none => .error .notUnicode

/-- The names of the files directly inside a directory, in the order of their code points. -/
def listing (files : Files) (directory : String) : Except FileError (List String) :=
  (files directory).names.map fun names => names.mergeSort fun left right => decide (left ≤ right)

end Files

end FlowAudit.Command
