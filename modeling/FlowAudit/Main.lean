import FlowAudit.Command.Run

set_option autoImplicit false

/-!
The command line: looks up what a request names, prints or writes its result, and ends with 0, with
1 after a failure, or with 2 if the words state no request.
-/
namespace FlowAudit.Main

open FlowAudit.Command

def usage : String :=
  "Usage: flow-audit [--config FILE] COMMAND\n\n" ++
  "Commands:\n" ++
  "  extract TRACE...        Rebuild per-flow ack timelines from traces\n" ++
  "  classify INPUT...       Classify every drop event in snapshot documents\n" ++
  "  fct DIRECTORY -p COUNT  Completion-time distributions per group\n\n" ++
  "Options:\n" ++
  "  --config FILE           Profile with overrides and group rules\n" ++
  "  -o, --output FILE       Write the result to a file\n" ++
  "  -p, --packet COUNT      Packets that a complete flow has had acknowledged\n" ++
  "  -h, --help              Print this text\n" ++
  "  -V, --version           Print the version"

def version : String := "flow-audit 0.1.0"

/-- The cause behind an error of the system, by its number. -/
def fileError (error : IO.Error) : FileError :=
  match error with
  | .noFileOrDirectory .. => .missing
  | .inappropriateType _ code _ => if code = 21 then .isDirectory else .notDirectory
  | _ => .other (toString error)

def attempt {α : Type} (action : IO α) : IO (Except FileError α) := do
  try return .ok (← action)
  catch error => return .error (fileError error)

/-- What there is at a path below the working directory, or at an absolute one. -/
def find (path : String) : IO Finding := do
  let place := (← IO.currentDir) / path
  let isDirectory ← place.isDir
  if isDirectory then
    let names ← attempt do
      let mut names := #[]
      for entry in ← place.readDir do
        if (← entry.path.pathExists) && !(← entry.path.isDir) then
          names := names.push entry.fileName
      return names.toList
    return { bytes := .error .isDirectory, isDirectory, names }
  else
    let present ← place.pathExists
    let names := .error (if present then .notDirectory else .missing)
    return { bytes := ← attempt (IO.FS.readBinFile place), names }

/-- The findings at some paths, and at the files inside those that are directories. -/
def look (paths : List String) : IO Files := do
  let mut found := []
  for path in paths do
    let finding ← find path
    found := (path, finding) :: found
    for name in finding.names.toOption.getD [] do
      let inside := child path name
      found := (inside, ← find inside) :: found
  let findings := found
  return fun path => (findings.lookup path).getD {}

def paths (request : Request) : List String :=
  request.config.toList ++
    match request.task with
    | .extract traces => traces
    | .classify inputs => inputs
    | .completion directory _ => [directory]

def perform (request : Request) : IO Ending := do
  match request.result (← look (paths request)) with
  | .error failure => return .failed failure
  | .ok text =>
      let text := String.ofList text
      match request.output with
      | none => do
          IO.print text
          return .done
      | some path =>
          match ← attempt (IO.FS.writeFile ((← IO.currentDir) / path) text) with
          | .ok _ => return .done
          | .error cause => return .failed (.unwritable path cause)

/-- Says why a run ended. -/
def explain (ending : Ending) : IO Unit :=
  match ending with
  | .done => return
  | .failed failure => do
      IO.eprintln s!"Error: {failure.message}"
      if let some cause := failure.cause? then IO.eprintln s!"\nCaused by:\n    {cause}"
  | .refused .help => IO.println usage
  | .refused .version => IO.println version
  | .refused (.misuse fault) => IO.eprintln s!"error: {fault.message}\n\n{usage}"

end FlowAudit.Main

open FlowAudit.Command FlowAudit.Main in
def main (words : List String) : IO UInt32 := do
  let ending ←
    match Request.ofWords words with
    | .ok request => perform request
    | .error refusal => pure (.refused refusal)
  explain ending
  return ending.exitCode
