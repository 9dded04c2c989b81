import SystemAtlas.CommandLine

/-! # The program

Reads the environment and the files that a command line needs, runs it, and prints and writes what
it gives. Themes are read from files only; no network is reached.
-/

namespace SystemAtlas.Program

open Resource (Content Files Path)

/-- The environment variables of the settings, under either spelling. -/
def environment : IO (List (Text × Text)) := do
  let names := ["IDENTIFIERS", "THEME_TIMEOUT", "LOG_LEVEL", "RANK_SEPARATION", "NODE_SEPARATION",
    "OUTPUT_DIR"].map ("ARCHCODE_" ++ ·)
  (names.map String.toLower ++ names).filterMapM fun name => do
    return (← IO.getEnv name).map fun value => (.ofString name, .ofString value)

/-- The files with what is found at a path: a file, something else, or a refusal. -/
def find (files : Files) (asked : Text) : IO Files := do
  let path := Path.ofText asked
  let place := (← IO.currentDir) / asked.lossy
  let withContent (c : Content) : Files := { files with contents := (path, c) :: files.contents }
  try
    if ← place.isDir then return withContent .special
    else if ← place.pathExists then return withContent (.bytes (← IO.FS.readBinFile place))
    else return files
  catch e =>
    let reason : Text := .ofString (toString e)
    return { files with
      readRefusal? := fun p => if p == path then some reason else files.readRefusal? p }

/-- The files with those of the themes that a source names. -/
def findThemes (files : Files) (source : Text) : IO Files := do
  match Declaration.Workspace.ofFile files source with
  | .error _ => return files
  | .ok w =>
    let paths := w.views.themes.filterMap fun url => (Style.Theme.filePath url).toOption
    paths.foldlM find files

/-- The files that a command needs. -/
def filesFor : Option CommandLine.Command → IO Files
  | some (.build source ..) | some (.validate source) => do findThemes (← find {} source) source
  | _ => return {}

/-- Writes a file, in a directory that is made if it is not there. -/
def write (path : Path) (text : Text) : IO Unit := do
  let place := (← IO.currentDir) / path.toText.lossy
  if let some directory := place.parent then IO.FS.createDirAll directory
  IO.FS.writeFile place text.lossy

/-- How the program is used. -/
def usage : Text :=
  "usage: build SOURCE [--output FILE] [--identifiers flat|hierarchical] | validate SOURCE\n"

/-- What an outcome prints besides its text, for whoever sits in front. -/
def remark : CommandLine.Outcome → Text
  | .help | .misused => usage
  | .broken failure _ => failure.message ++ "\n"
  | _ => ""

/-- The outcome of a command line whose files are written. If the system does not let them be, the
outcome is that of a run where it does not. -/
def outcome (settings : Settings) (files : Files) (args : List Text) : IO CommandLine.Outcome := do
  let outcome := CommandLine.run settings { files } args
  try
    for (path, text) in outcome.written do write path text
    return outcome
  catch e =>
    let reason : Text := .ofString (toString e)
    let files := { files with writeRefusal? := fun _ => some reason }
    return CommandLine.run settings { files } args

/-- Runs a command line and gives its exit code. -/
def run (args : List Text) : IO UInt32 := do
  match Settings.ofEnvironment (← environment) with
  | .error faults =>
    for fault in faults do IO.eprintln (fault.setting ++ ": " ++ fault.problem.message).lossy
    return 1
  | .ok settings =>
    let files ← filesFor (CommandLine.parse args)
    let outcome ← outcome settings files args
    IO.print outcome.text.lossy
    IO.eprint (remark outcome).lossy
    return UInt32.ofNat outcome.exitCode

end SystemAtlas.Program

/-- Runs the program. -/
def main (args : List String) : IO UInt32 := SystemAtlas.Program.run (args.map .ofString)
