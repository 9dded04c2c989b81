import SystemAtlas.Declaration.MemberReader
import SystemAtlas.Declaration.ViewReader
import SystemAtlas.Error
import SystemAtlas.Identifier.Registry
import SystemAtlas.Resource.World

/-! # Declarations of a workspace

A workspace is declared by a document: a value, a text that spells one, or a file that holds such a
text. A document may have the workspace under the key `workspace` as its only field.
-/

namespace SystemAtlas.Declaration

open Json (Fields)

/-- A workspace: its model and the views of it. -/
structure Workspace where
  line : Option Int := none
  name : Text := "Workspace"
  description : Text := ""
  identifiers : Option Identifier.Mode := none
  model : List ModelMember := []
  views : Views := {}
  deriving Inhabited

namespace Workspace

/-- A workspace as a value. -/
def toJson (w : Workspace) : Json :=
  .object
    [("line", .ofInt? w.line), ("name", .string w.name), ("description", .string w.description),
      ("identifiers", .ofText? (w.identifiers.map (·.name))),
      ("model", .array (w.model.map ModelMember.toJson)), ("views", w.views.toJson)]

/-- A mode of identifiers. -/
def modeOf : Json → Checked Identifier.Mode :=
  choice ([.flat, .hierarchical].map fun m : Identifier.Mode => (m.name, m))

/-- The keys of a workspace. -/
def keys : List Text := ["line", "name", "description", "identifiers", "model", "views"]

/-- A workspace whose fields are checked. -/
def checked : Json → Checked Workspace :=
  form "WorkspaceDecl" fun fields => closed keys fields <|
    Workspace.mk <$> optionalField fields "line" integer
      <*> field fields "name" "Workspace" text <*> field fields "description" "" text
      <*> optionalField fields "identifiers" modeOf
      <*> field fields "model" [] (list ModelMember.ofJson) <*> field fields "views" {} Views.ofJson

/-- What a document holds: its only field if that is `workspace`, and otherwise the document. -/
def content (fields : Fields) : Json :=
  match fields with
  | [(key, j)] => if key == "workspace" then j else .object fields
  | _ => .object fields

/-- The error of reading a source. -/
def sourceError (cause : Cause) (scope : List Text := []) (line : Option Int := none) : Failure :=
  .build { cause, scope, line, phase := some .source }

/-- The failure for a document with faults. All of them are told, so all must be fit to be. -/
def refusal (faults : List Fault) : Failure :=
  match faults.findSome? (·.problem.encodingFault?) with
  | some fault => .unencodable fault
  | none => sourceError (.badDocument faults) ((faults.map (·.place)).headD [])

/-- The workspace that a document declares. -/
def ofJson : Json → Except Failure Workspace
  | .object fields =>
    match checked (content fields) with
    | .ok w => .ok w
    | .faulty faults => .error (refusal faults)
    | .stopped type => .error (.noItems type)
  | _ => .error (sourceError .notDocument)

/-- The workspace that the text of a document declares. -/
def ofText (s : Text) : Except Failure Workspace :=
  match Json.parse s with
  | .ok j => ofJson j
  | .error fault => .error (.ofSyntax fault (sourceError (.notJson fault) [] (some fault.line)))

/-- The workspace that a source declares: a document, or the text of one. -/
def ofSource : Json → Except Failure Workspace
  | .string s => ofText s
  | j => ofJson j

/-- The workspace that a file declares. -/
def ofFile (files : Resource.Files) (path : Text) : Except Failure Workspace :=
  match files.read path with
  | .ok s => ofText s
  | .error fault => .error (.ofFile fault (sourceError (.unreadable path fault)))

end Workspace

end SystemAtlas.Declaration
