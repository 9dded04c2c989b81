import SystemAtlas.Declaration.Fault
import SystemAtlas.Json.Reader
import SystemAtlas.Resource.Files
import SystemAtlas.Resource.Url
import SystemAtlas.View.Kind

/-! # Errors

A build stops at the first `BuildError`: a cause together with the scope path it arose in, the line
of the nearest declaration that has one, and the phase of the build. Every cause determines its
kind, its message and the identifiers it is about. `Report` is what an error tells the outside.

`Failure` adds the refusals that are no build errors: arguments that name nothing known, a frozen
graph, a key that is not there, values of a type that an operation cannot use, what files and
requests fail with, and limits of what can be read, laid out and written.
-/

namespace SystemAtlas

/-- The kinds of build error. -/
inductive ErrorKind where
  | buildError
  | duplicateIdentifier
  | duplicateRelationship
  | ambiguousReference
  | unresolvedElement
  | cyclicScopeReference
  | emptyView
  | invalidAnimationStep
  | themeLoadFailure
  | invalidSource
  deriving DecidableEq, Inhabited

namespace ErrorKind

/-- Every kind of build error. -/
def all : List ErrorKind :=
  [buildError, duplicateIdentifier, duplicateRelationship, ambiguousReference, unresolvedElement,
    cyclicScopeReference, emptyView, invalidAnimationStep, themeLoadFailure, invalidSource]

/-- The name of a kind. -/
def name : ErrorKind → Text
  | buildError => "BuildError"
  | duplicateIdentifier => "DuplicateIdentifier"
  | duplicateRelationship => "DuplicateRelationship"
  | ambiguousReference => "AmbiguousReference"
  | unresolvedElement => "UnresolvedElement"
  | cyclicScopeReference => "CyclicScopeReference"
  | emptyView => "EmptyView"
  | invalidAnimationStep => "InvalidAnimationStep"
  | themeLoadFailure => "ThemeLoadFailure"
  | invalidSource => "InvalidSource"

/-- The kind with the given name. -/
def ofName? (s : Text) : Option ErrorKind := all.find? (·.name == s)

/-- A kind and the more general kinds it belongs to, most general first. -/
def lineage : ErrorKind → List ErrorKind
  | buildError => [buildError]
  | duplicateRelationship => [buildError, duplicateIdentifier, duplicateRelationship]
  | k => [buildError, k]

end ErrorKind

/-- What an error tells the outside. -/
structure Report where
  kind : ErrorKind
  message : Text
  scope : List Text := []
  identifiers : List Text := []
  phase : Option Text := none
  line : Option Int := none
  deriving DecidableEq, Inhabited

namespace Report

/-- Where an error arose: its scope path, or the workspace as a whole. -/
def location (r : Report) : Text :=
  let path := Text.intercalate "." r.scope
  if path == "" then "<workspace>" else path

/-- An error on one line. -/
def summary (r : Report) : Text := r.kind.name ++ " at " ++ r.location ++ ": " ++ r.message

/-- The fields of an error other than its kind. -/
def details (r : Report) : Json.Fields :=
  [("message", .string r.message), ("phase", .ofText? r.phase), ("scope", .ofTexts r.scope),
    ("location", .string r.location), ("line", .ofInt? r.line),
    ("identifiers", .ofTexts r.identifiers)]

/-- An error as a value. -/
def toJson (r : Report) : Json := .object (("kind", .string r.kind.name) :: r.details)

end Report

/-- Why an entry of a theme, or the theme itself, does not have the form of one. -/
inductive SchemaFault where
  | notOfType (shown expected : Text)
  | noTag
  | emptyTag
  deriving DecidableEq, Inhabited

/-- The description of a schema fault. -/
def SchemaFault.message : SchemaFault → Text
  | notOfType shown expected => shown ++ " is not of type '" ++ expected ++ "'"
  | noTag => "'tag' is a required property"
  | emptyTag => "'' should be non-empty"

/-- Why a theme cannot be loaded. -/
inductive ThemeFault where
  | refused (reason : Text)
  | status (code : Int)
  | file (fault : Resource.FileFault)
  | notJson (problem : Json.Problem)
  | schema (fault : SchemaFault)
  | rule (fault : Style.Fault)
  | icon (fault : Resource.Url.Fault)
  deriving DecidableEq, Inhabited

/-- The description of a theme fault. -/
def ThemeFault.message : ThemeFault → Text
  | refused reason => "Unable to fetch theme: " ++ reason
  | status code => "Theme fetch failed (" ++ toString code ++ ")"
  | file fault => fault.message
  | notJson problem => "Theme is not valid JSON: " ++ problem.message
  | schema fault => "Theme validation failed: " ++ fault.message
  | rule fault => "Invalid theme rule: " ++ fault.message
  | icon fault => "Invalid theme rule: " ++ fault.message

/-- A text as messages show it where it may be missing. -/
def textOrNone (s : Option Text) : Text := (Json.ofText? s).plain

/-- What is wrong in a build. -/
inductive Cause where
  -- documents
  | notDocument
  | badDocument (faults : List Declaration.Fault)
  | notJson (fault : Json.SyntaxFault)
  | unreadable (path : Text) (fault : Resource.FileFault)
  -- identifiers
  | invalidName (name : Text)
  | identifierTaken (id : Text)
  | emptyReference
  | ambiguous (reference : Text) (candidates : List Text)
  | unresolved (reference : Text)
  | undeclared (reference : Text)
  -- the model
  | environmentTaken (id name : Text)
  | elementTaken (id : Text)
  | parentMissing (parent id : Text)
  | elementMissing (id : Text)
  | endpointMissing (endpoint source destination : Text)
  | relationshipTaken (source destination : Text) (label : Option Text)
  | relationshipMissing (id : Text)
  -- declarations
  | notGroup (reference : Text)
  | noOwner (reference : Text)
  | notElement (reference id : Text)
  | notYetDeclared (reference id : Text)
  | laterDescendant (reference owner id : Text)
  -- views
  | notSubject (kind : ViewKind) (subject : Text)
  | environmentMissing (reference : Option Text)
  | viewTaken (key : Text)
  | notReachable (reference key : Text)
  | emptyView (key subject : Text)
  | emptyStep (order : Nat) (key : Text)
  | stepOutside (order : Nat) (key : Text) (ids : List Text)
  | stepRepeats (order : Nat) (key : Text) (ids : List Text)
  -- themes
  | theme (url : Text) (fault : ThemeFault)
  deriving DecidableEq, Inhabited

namespace Cause

/-- The kind of error a cause gives. -/
def kind : Cause → ErrorKind
  | notDocument | badDocument _ | notJson _ | unreadable .. | invalidName _ => .invalidSource
  | identifierTaken _ | environmentTaken .. | elementTaken _ | viewTaken _ => .duplicateIdentifier
  | relationshipTaken .. => .duplicateRelationship
  | ambiguous .. => .ambiguousReference
  | emptyReference | unresolved _ | undeclared _ | parentMissing .. | elementMissing _
  | endpointMissing .. | relationshipMissing _ | notGroup _ | noOwner _ | notElement ..
  | notYetDeclared .. | notSubject .. | environmentMissing _ | notReachable .. => .unresolvedElement
  | laterDescendant .. => .cyclicScopeReference
  | emptyView .. => .emptyView
  | emptyStep .. | stepOutside .. | stepRepeats .. => .invalidAnimationStep
  | theme .. => .themeLoadFailure

/-- The description of the first fault of a document. -/
def firstText : List Declaration.Fault → Text
  | [] => ""
  | f :: _ => f.problem.message

/-- The number of faults of a document, in words of the message. -/
def countText (faults : List Declaration.Fault) : Text :=
  " (" ++ toString faults.length ++ " validation error(s))"

/-- The beginning of every message about an animation step. -/
def stepText (order : Nat) (key : Text) : Text :=
  "Animation step " ++ toString order ++ " of view '" ++ key ++ "'"

/-- The description of a cause. -/
def message : Cause → Text
  | notDocument => "Workspace source must be a JSON object"
  | badDocument faults => firstText faults ++ countText faults
  | notJson fault =>
    "Invalid JSON at line " ++ toString fault.line ++ " column " ++ toString fault.column ++ ": " ++
      fault.problem.message
  | unreadable _ fault => fault.message
  | invalidName name => "Invalid identifier: " ++ name.quoted
  | identifierTaken id => "Identifier '" ++ id ++ "' is already declared"
  | emptyReference => "Empty reference"
  | ambiguous reference candidates =>
    "Reference '" ++ reference ++ "' matches " ++ Text.intercalate ", " candidates
  | unresolved reference => "Reference '" ++ reference ++ "' does not resolve in scope"
  | undeclared reference => "Reference '" ++ reference ++ "' is not declared"
  | environmentTaken _ name => "Deployment environment '" ++ name ++ "' already exists"
  | elementTaken id => "Element '" ++ id ++ "' already exists"
  | parentMissing parent id =>
    "Parent '" ++ parent ++ "' of '" ++ id ++ "' is not in the model"
  | elementMissing id => "Element '" ++ id ++ "' is not in the model"
  | endpointMissing endpoint _ _ =>
    "Relationship endpoint '" ++ endpoint ++ "' is not in the model"
  | relationshipTaken source destination label =>
    "Relationship '" ++ textOrNone label ++ "' from '" ++ source ++ "' to '" ++ destination ++
      "' already exists"
  | relationshipMissing id => "Relationship '" ++ id ++ "' is not in the model"
  | notGroup reference => "'" ++ reference ++ "' is not a deployment group of this environment"
  | noOwner _ => "'this' used outside an element block"
  | notElement reference _ => "'" ++ reference ++ "' does not name a model element"
  | notYetDeclared reference _ => "'" ++ reference ++ "' is not declared yet at this point"
  | laterDescendant reference owner _ =>
    "'" ++ reference ++ "' is a descendant of '" ++ owner ++ "' declared after the reference"
  | notSubject kind subject =>
    kind.label ++ " view subject '" ++ subject ++ "' is not a " ++ kind.subjectType
  | environmentMissing reference =>
    "Deployment environment '" ++ textOrNone reference ++ "' does not exist"
  | viewTaken key => "View key '" ++ key ++ "' is already defined"
  | notReachable reference key =>
    "'" ++ reference ++ "' is not declared or not reachable from the subject of view '" ++ key ++
      "'"
  | emptyView key _ => "View '" ++ key ++ "' resolves to no elements"
  | emptyStep order key => stepText order key ++ " is empty"
  | stepOutside order key _ => stepText order key ++ " references elements outside the view"
  | stepRepeats order key _ => stepText order key ++ " repeats elements from an earlier step"
  | theme _ fault => fault.message

/-- The identifiers a cause is about. -/
def identifiers : Cause → List Text
  | notDocument | notJson _ | emptyReference | emptyStep .. => []
  | badDocument faults => faults.map fun f => Text.intercalate "." f.place
  | unreadable path _ => [path]
  | invalidName name => [name]
  | identifierTaken id | environmentTaken id _ | elementTaken id | elementMissing id
  | relationshipMissing id => [id]
  | ambiguous reference candidates => reference :: candidates
  | unresolved reference | undeclared reference | notGroup reference | noOwner reference
  | notReachable reference _ => [reference]
  | parentMissing parent id => [parent, id]
  | endpointMissing _ source destination | relationshipTaken source destination _ =>
    [source, destination]
  | notElement reference id | notYetDeclared reference id => [reference, id]
  | laterDescendant _ owner id => [owner, id]
  | notSubject _ subject => [subject]
  | environmentMissing reference => [reference.getD ""]
  | viewTaken key => [key]
  | emptyView _ subject => [subject]
  | stepOutside _ _ ids | stepRepeats _ _ ids => ids
  | theme url _ => [url]

end Cause

/-- The phases of a build. -/
inductive Phase where
  | source
  | model
  | views
  | styles
  deriving DecidableEq, Inhabited

/-- The name of a phase. -/
def Phase.name : Phase → Text
  | source => "source"
  | model => "model"
  | views => "views"
  | styles => "styles"

/-- An error that stops a build. -/
structure BuildError where
  cause : Cause
  scope : List Text := []
  line : Option Int := none
  phase : Option Phase := none
  deriving DecidableEq, Inhabited

namespace BuildError

/-- What a build error tells the outside. -/
def report (e : BuildError) : Report :=
  { kind := e.cause.kind
    message := e.cause.message
    scope := e.scope
    identifiers := e.cause.identifiers
    phase := e.phase.map Phase.name
    line := e.line }

end BuildError

/-- Why an operation fails. -/
inductive Failure where
  | build (error : BuildError)
  /-- A style rule that cannot be made. -/
  | style (fault : Style.Fault)
  /-- A reference that is no URL. -/
  | url (fault : Resource.Url.Fault)
  | unknownMode (name : Text)
  | unknownStrategy (name : Option Text)
  | unknownViewKind (shown : Text)
  /-- A change of a graph that is complete. -/
  | frozen
  /-- A key that is not there. -/
  | missingKey (key : Text)
  /-- A value that has no items; its type is named. -/
  | noItems (type : Text)
  /-- A value that is no text where one is read as a URL; its type is named. -/
  | noText (type : Text)
  /-- A file that the system gives no access to, for its reason. -/
  | inaccessible (reason : Text)
  /-- A request that breaks off without being refused, for the given reason. -/
  | interrupted (reason : Text)
  /-- A text that is told but cannot be encoded. -/
  | unencodable (fault : EncodingFault)
  /-- A text that goes beyond a limit of reading. -/
  | unreadable (limit : Json.Problem)
  /-- A number too large to be measured in floating point. -/
  | unmeasurable
  /-- A number with too many digits to be written. -/
  | unwritable
  deriving DecidableEq, Inhabited

namespace Failure

/-- A build error with nothing but its cause and the scope it arose in. -/
def of (cause : Cause) (scope : List Text := []) : Failure := .build { cause, scope }

/-- The description of a failure. -/
def message : Failure → Text
  | build error => error.cause.message
  | style fault => fault.message
  | url fault => fault.message
  | unknownMode name => "Unknown identifier mode: " ++ name
  | unknownStrategy name => "Unknown layout strategy: " ++ textOrNone name
  | unknownViewKind shown => shown ++ " is not a valid ViewKind"
  | frozen => "Model graph is frozen; the model-build phase has completed"
  | missingKey key => key
  | noItems type => "'" ++ type ++ "' object is not iterable"
  | noText type => "'" ++ type ++ "' object has no attribute 'decode'"
  | inaccessible reason | interrupted reason => reason
  | unencodable fault => fault.message
  | unreadable limit => limit.message
  | unmeasurable => "int too large to convert to float"
  | unwritable => Json.digitsText ++ "; use sys.set_int_max_str_digits() to increase the limit"

/-- The failure for a text that cannot be read, which is `refusal` unless the text goes beyond a
limit. -/
def ofSyntax (fault : Json.SyntaxFault) (refusal : Failure) : Failure :=
  if fault.problem.isLimit then .unreadable fault.problem else refusal

/-- The failure for a file that cannot be read, which is `refusal` unless the system gives no access
to the file. -/
def ofFile (fault : Resource.FileFault) (refusal : Failure) : Failure :=
  match fault with
  | .inaccessible reason => .inaccessible reason
  | _ => refusal

/-- A failure with its build error changed. -/
def onBuild (f : BuildError → BuildError) : Failure → Failure
  | build error => build (f error)
  | other => other

/-- A failure with the cause of its build error changed. -/
def onCause (f : Cause → Cause) : Failure → Failure :=
  onBuild fun e => { e with cause := f e.cause }

/-- A build error without a scope takes the given one, and one without a line the given line. -/
def annotate (scope : List Text) (line : Option Int) : Failure → Failure :=
  onBuild fun e =>
    { e with scope := if e.scope.isEmpty then scope else e.scope, line := e.line <|> line }

/-- A build error without a phase takes the given one. -/
def inPhase (phase : Phase) : Failure → Failure :=
  onBuild fun e => { e with phase := e.phase <|> some phase }

end Failure

end SystemAtlas
