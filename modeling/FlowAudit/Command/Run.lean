import FlowAudit.Command.FileTree
import FlowAudit.Command.Result

set_option autoImplicit false

/-!
Runs of command lines over trees of files. The whole result is there before anything is printed or
written, so a run that fails changes no file.
-/
namespace FlowAudit.Command

/-- How a run ends. -/
inductive Ending where
  | done
  | failed (failure : Failure)
  | refused (refusal : Refusal)

/-- The number that a run leaves to its caller. -/
def Ending.exitCode : Ending → UInt32
  | done => 0
  | failed _ => 1
  | refused .help => 0
  | refused .version => 0
  | refused (.misuse _) => 2

/-- How a run ends, what it prints, and the files as it leaves them. -/
structure Outcome where
  ending : Ending
  printed : List Char := []
  tree : FileTree

/-- Prints the result of a request, or writes it to the file that the request names. -/
def Request.deliver (request : Request) (text : List Char) (tree : FileTree) : Outcome :=
  match request.output with
  | none => { ending := .done, printed := text, tree }
  | some path =>
      match tree.write path (String.ofList text).toUTF8 with
      | .ok after => { ending := .done, tree := after }
      | .error cause => { ending := .failed (.unwritable path cause), tree }

def Request.run (request : Request) (tree : FileTree) : Outcome :=
  match request.result tree.finding with
  | .ok text => request.deliver text tree
  | .error failure => { ending := .failed failure, tree }

/-- The run of a command line. -/
def run (words : List String) (tree : FileTree) : Outcome :=
  match Request.ofWords words with
  | .ok request => request.run tree
  | .error refusal => { ending := .refused refusal, tree }

end FlowAudit.Command
