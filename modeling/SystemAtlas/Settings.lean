import SystemAtlas.Declaration.Value
import SystemAtlas.Identifier.Registry
import SystemAtlas.Number.Decimal
import SystemAtlas.Text.Casing

/-! # Settings

What holds where neither a document nor an argument says otherwise. Every setting has a default and
can be given by an environment variable: its name after `ARCHCODE_`, in capital or small letters.
-/

namespace SystemAtlas

/-- The settings of a run. -/
structure Settings where
  /-- The name of a mode of identifiers, which is looked up when it is needed. -/
  identifiers : Text := Identifier.Mode.flat.name
  themeTimeout : Float := 30
  logLevel : Text := "WARNING"
  rankSeparation : Int := 300
  nodeSeparation : Int := 300
  outputDirectory : Text := "outputs"
  deriving Inhabited

namespace Settings

/-- What is wrong with the text of a variable. -/
inductive Problem where
  /-- A text with half of a surrogate pair where its characters count. -/
  | notUnicode
  | notMode
  | notInteger
  /-- A whole number with too many digits. -/
  | tooLarge
  | notNumber
  | notPositive
  deriving DecidableEq, Inhabited

/-- A problem with the variable of a setting. -/
structure Fault where
  setting : Text
  problem : Problem
  deriving DecidableEq, Inhabited

/-- The name of a problem. -/
def Problem.name : Problem → Text
  | notUnicode => "string_unicode"
  | notMode => "literal_error"
  | notInteger => "int_parsing"
  | tooLarge => "int_parsing_size"
  | notNumber => "float_parsing"
  | notPositive => "greater_than"

/-- The description of a problem. -/
def Problem.message : Problem → Text
  | notUnicode => Declaration.Problem.message .notUnicode
  | notMode => Declaration.Problem.message (.notOneOf ["flat", "hierarchical"])
  | notInteger => Declaration.Problem.message .notIntegerText
  | tooLarge => Declaration.Problem.message .tooLarge
  | notNumber => "Input should be a valid number, unable to parse string as a number"
  | notPositive => "Input should be greater than 0"

/-- A fault as a value. -/
def Fault.toJson (f : Fault) : Json :=
  .object
    [("loc", .ofTexts [f.setting]), ("type", .string f.problem.name),
      ("msg", .string f.problem.message)]

/-- Settings as a value. -/
def toJson (s : Settings) : Json :=
  .object
    [("identifiers", .string s.identifiers), ("theme_timeout", .float s.themeTimeout),
      ("log_level", .string s.logLevel), ("rank_separation", .int s.rankSeparation),
      ("node_separation", .int s.nodeSeparation), ("output_dir", .string s.outputDirectory)]

/-- A text that must be the name of a mode of identifiers. -/
def modeOf (s : Text) : Except Problem Text :=
  if !s.isWhole then .error .notUnicode
  else if (Identifier.Mode.ofName? s).isSome then .ok s
  else .error .notMode

/-- The whole number that a text spells. -/
def integerOf (s : Text) : Except Problem Int :=
  match s.chars? with
  | none => .error .notUnicode
  | some cs =>
    (Declaration.integerOfChars cs).mapError fun
      | .tooLarge => .tooLarge
      | _ => .notInteger

/-- The positive number that a text spells. -/
def positiveOf (s : Text) : Except Problem Float :=
  match s.chars? with
  | none => .error .notUnicode
  | some cs =>
    match Number.float? cs with
    | none => .error .notNumber
    | some x => if x > 0 then .ok x else .error .notPositive

/-- The text of the variable for a setting; the latest of those with its name counts. -/
def valueFor? (environment : List (Text × Text)) (setting : Text) : Option Text :=
  (environment.reverse.find? fun v => v.1.lower == "archcode_" ++ setting).map (·.2)

/-- A setting read from its variable, or its default, with the fault if there is one. -/
def read (environment : List (Text × Text)) (setting : Text) (default : α)
    (parse : Text → Except Problem α) : α × List Fault :=
  match (valueFor? environment setting).map parse with
  | none => (default, [])
  | some (.ok x) => (x, [])
  | some (.error problem) => (default, [⟨setting, problem⟩])

/-- The settings that environment variables give, or all faults of the variables. -/
def ofEnvironment (environment : List (Text × Text)) : Except (List Fault) Settings :=
  let default : Settings := {}
  let (identifiers, f₁) := read environment "identifiers" default.identifiers modeOf
  let (themeTimeout, f₂) := read environment "theme_timeout" default.themeTimeout positiveOf
  let (logLevel, f₃) := read environment "log_level" default.logLevel .ok
  let (rankSeparation, f₄) := read environment "rank_separation" default.rankSeparation integerOf
  let (nodeSeparation, f₅) := read environment "node_separation" default.nodeSeparation integerOf
  let (outputDirectory, f₆) := read environment "output_dir" default.outputDirectory .ok
  match f₁ ++ f₂ ++ f₃ ++ f₄ ++ f₅ ++ f₆ with
  | [] =>
    .ok { identifiers, themeTimeout, logLevel, rankSeparation, nodeSeparation, outputDirectory }
  | faults => .error faults

end Settings

end SystemAtlas
