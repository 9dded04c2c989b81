import SystemAtlas.Build
import SystemAtlas.Json.Writer
import SystemAtlas.Style.Theme
import SystemAtlas.Text.Terminal

/-! # The command line

`build SOURCE` prints the payload of a workspace, or writes it to the file that `--output` names;
`--identifiers` chooses the mode. `validate SOURCE` tells what a build would make. A build error is
printed, and misuse of the command line is told apart from it by the exit code.
-/

namespace SystemAtlas.CommandLine

open Resource (Path Files World)

/-! ## Arguments -/

/-- An option with a value: its name after two dashes, and its letter after one. -/
structure ValueOption where
  name : Text
  letter : Option Char := none
  deriving DecidableEq, Inhabited

/-- What one argument is. -/
inductive Argument where
  | positional (value : Text)
  | help
  /-- An option with the value in the same argument. -/
  | valued (name value : Text)
  /-- An option whose value is the next argument. -/
  | awaiting (name : Text)
  | unknown
  deriving DecidableEq, Inhabited

/-- What an argument of two dashes and a name is, with a value behind an equals sign if it has
one. -/
def longOption (options : List ValueOption) (body : List CodePoint) : Argument :=
  let name : Text := ⟨body.takeWhile (!·.is '=')⟩
  match options.find? (·.name == name), body.dropWhile (!·.is '=') with
  | some _, [] => .awaiting name
  | some _, _ :: value => .valued name ⟨value⟩
  | none, [] => if name == "help" then .help else .unknown
  | none, _ => .unknown

/-- What an argument of one dash, a letter and perhaps a value is. -/
def shortOption (options : List ValueOption) (letter : CodePoint) (value : List CodePoint) :
    Argument :=
  match options.find? (·.letter.any letter.is), value with
  | some o, [] => .awaiting o.name
  | some o, value => .valued o.name ⟨value⟩
  | none, _ => .unknown

/-- What an argument is, given the options with values. -/
def readArgument (options : List ValueOption) (s : Text) : Argument :=
  match s.points with
  | .char '-' :: .char '-' :: body => longOption options body
  | .char '-' :: letter :: value => shortOption options letter value
  | _ => .positional s

/-- The arguments of a command: the positional ones, the values of options, and whether help is
asked for. -/
structure Arguments where
  positional : List Text := []
  values : List (Text × Text) := []
  help : Bool := false
  deriving DecidableEq, Inhabited

/-- The arguments in a list; nothing if some option is unknown or lacks its value. Two dashes alone
end the options. -/
def Arguments.scan (options : List ValueOption) : List Text → Option Arguments
  | [] => some {}
  | s :: rest =>
    if s == "--" then some { positional := rest }
    else
      match readArgument options s, rest with
      | .positional value, rest =>
        (scan options rest).map fun a => { a with positional := value :: a.positional }
      | .help, rest => (scan options rest).map fun a => { a with help := true }
      | .valued name value, rest =>
        (scan options rest).map fun a => { a with values := (name, value) :: a.values }
      | .awaiting name, value :: rest =>
        (scan options rest).map fun a => { a with values := (name, value) :: a.values }
      | .awaiting _, [] | .unknown, _ => none

/-- The value of an option; the last one given counts. -/
def Arguments.value? (a : Arguments) (name : Text) : Option Text :=
  (a.values.reverse.find? (·.1 == name)).map (·.2)

/-! ## Commands -/

/-- What is asked for. -/
inductive Command where
  | help
  | build (source : Text) (output identifiers : Option Text)
  | validate (source : Text)
  deriving DecidableEq, Inhabited

/-- The options of `build` with values. -/
def buildOptions : List ValueOption := [⟨"output", some 'o'⟩, ⟨"identifiers", none⟩]

/-- The command that arguments ask for, given what they make of their only positional one. -/
def command (options : List ValueOption) (args : List Text)
    (make : Arguments → Text → Option Command) : Option Command := do
  let a ← Arguments.scan options args
  if a.help then return .help
  else
    match a.positional with
    | [source] => make a source
    | _ => none

/-- The build that arguments ask for. -/
def buildCommand (a : Arguments) (source : Text) : Option Command :=
  let identifiers := a.value? "identifiers"
  if identifiers.all fun s => (Identifier.Mode.ofName? s).isSome then
    some (.build source (a.value? "output") identifiers)
  else none

/-- Whether help is asked for in front of the name of a command, and the arguments from that name
on; nothing if some option in front is unknown. Two dashes alone end the options. -/
def skipOptions : List Text → Option (Bool × List Text)
  | [] => some (false, [])
  | s :: rest =>
    if s == "--" then some (false, rest)
    else
      match readArgument [] s with
      | .help => (skipOptions rest).map fun r => (true, r.2)
      | .positional _ => some (false, s :: rest)
      | _ => none

/-- The command that the first argument names. One that names none may still be an option, behind
two dashes, and ask for help. -/
def named (args : List Text) : Option Command :=
  match args with
  | [] => none
  | name :: rest =>
    if name == "build" then command buildOptions rest buildCommand
    else if name == "validate" then command [] rest fun _ source => some (.validate source)
    else
      match skipOptions args with
      | some (true, _) => some .help
      | _ => none

/-- What a command line asks for; nothing if it is misused. -/
def parse (args : List Text) : Option Command :=
  match skipOptions args with
  | none => none
  | some (true, _) => some .help
  | some (false, args) => named args

/-! ## Running -/

/-- How a command ends. -/
inductive Outcome where
  | help
  | misused
  | done (text : Text) (written : List (Path × Text))
  | refused (report : Report)
  /-- A failure that is no build error, perhaps after files were written. -/
  | broken (failure : Failure) (written : List (Path × Text) := [])
  deriving Inhabited

/-- The exit code of an outcome. -/
def Outcome.exitCode : Outcome → Nat
  | help | done .. => 0
  | refused _ | broken .. => 1
  | misused => 2

/-- The text an outcome prints. -/
def Outcome.text : Outcome → Text
  | done text _ => text
  | refused r => (Json.object [("error", r.toJson)]).pretty ++ "\n"
  | _ => ""

/-- The files an outcome writes. -/
def Outcome.written : Outcome → List (Path × Text)
  | done _ written | broken _ written => written
  | _ => []

/-- Where output goes. A bare name lies in the directory for output. -/
def outputPath (settings : Settings) (output : Text) : Path :=
  let p := Path.ofText output
  if p.isBare then Path.ofText settings.outputDirectory ++ p else p

/-- The build of a source file. -/
def buildFile (settings : Settings) (world : World) (identifiers : Option Text)
    (source : Text) : Except Failure Payload :=
  (Build.run settings (Style.Theme.load world) identifiers
    (Declaration.Workspace.ofFile world.files source)).result

/-- The outcome of a build, given what is made of its payload. -/
def finish (built : Except Failure Payload) (make : Payload → Outcome) : Outcome :=
  match built with
  | .ok p => make p
  | .error (.build e) => .refused e.report
  | .error e => .broken e

/-- The outcome of printing a text after files were written. A text must be encoded to be
printed. -/
def print (text : Text) (written : List (Path × Text)) : Outcome :=
  match text.encodingFault? with
  | none => .done text written
  | some fault => .broken (.unencodable fault) written

/-- What tells that a file was written. -/
def writtenText (path : Path) : Text := Text.unstyled ("Wrote " ++ path.toText ++ "\n")

/-- The outcome of a text that is printed, or written to a file if the system lets it be. -/
def deliver (settings : Settings) (files : Files) (output : Option Text) (text : Text) : Outcome :=
  match output.filter (!·.isEmpty) with
  | none => print text []
  | some output =>
    let path := outputPath settings output
    match files.writeRefusal? path with
    | some reason => .broken (.inaccessible reason)
    | none => print (writtenText path) [(path, text)]

/-- The text of a payload. -/
def payloadText (p : Payload) : Text := p.toJson.pretty ++ "\n"

/-- The outcome of a payload that is printed, or written to a file, if it can be written. -/
def emit (settings : Settings) (files : Files) (output : Option Text) (p : Payload) : Outcome :=
  if p.toJson.isWritable then deliver settings files output (payloadText p)
  else .broken .unwritable

/-- What a payload has, in words. -/
def countText (p : Payload) : Text :=
  "OK: " ++ toString p.model.elements.length ++ " elements, " ++
    toString p.model.relationships.length ++ " relationships, " ++ toString p.views.length ++
    " views\n"

/-- The outcome of a command line. -/
def run (settings : Settings) (world : World) (args : List Text) : Outcome :=
  match parse args with
  | none => .misused
  | some .help => .help
  | some (.build source output identifiers) =>
    finish (buildFile settings world identifiers source) (emit settings world.files output)
  | some (.validate source) =>
    finish (buildFile settings world none source) fun p => print (countText p) []

end SystemAtlas.CommandLine
