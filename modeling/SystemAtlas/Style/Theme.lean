import SystemAtlas.Json.Reader
import SystemAtlas.Resource.World
import SystemAtlas.Style.Cascade

/-! # Themes

A theme is a document with rules for elements and rules for relationships. `Theme.load` finds the
theme of a URL: a built-in one, one fetched over the network, or a file. The document is checked
before its rules are made, and a relative icon of an element is resolved against the URL of its
theme.
-/

namespace SystemAtlas.Style.Theme

open Resource

/-- Rules for elements and for relationships, as fields that rules are made of. -/
structure Document where
  name : Option Text := none
  elements : List (Json.Fields) := []
  relationships : List (Json.Fields) := []
  deriving Inhabited

/-! ## The form of a theme -/

/-- The text that a field is, if it is there. -/
def checkText (fields : Json.Fields) (key : Text) : Except SchemaFault (Option Text) :=
  match Json.find? fields key with
  | none => .ok none
  | some (.string s) => .ok (some s)
  | some j => .error (.notOfType j.inline "string")

/-- The fields of an entry, which must have a tag. -/
def checkEntry : Json → Except SchemaFault (Json.Fields)
  | .object fields => do
    match ← checkText fields "tag" with
    | none => throw .noTag
    | some tag => if tag == "" then throw .emptyTag else return fields
  | j => .error (.notOfType j.inline "object")

/-- The entries under a key. -/
def checkEntries (fields : Json.Fields) (key : Text) :
    Except SchemaFault (List (Json.Fields)) :=
  match Json.find? fields key with
  | none => .ok []
  | some (.array items) => items.mapM checkEntry
  | some j => .error (.notOfType j.inline "array")

/-- The theme that a value is. The first fault counts, in the order name, description, elements,
relationships. -/
def Document.ofJson : Json → Except SchemaFault Document
  | .object fields => do
    let name ← checkText fields "name"
    discard (checkText fields "description")
    let elements ← checkEntries fields "elements"
    let relationships ← checkEntries fields "relationships"
    return { name, elements, relationships }
  | j => .error (.notOfType j.inline "object")

/-! ## Built-in themes -/

/-- An entry that sets texts. -/
def entry (tag : Text) (values : List (Text × Text)) : Json.Fields :=
  ("tag", .string tag) :: values.map fun s => (s.1, .string s.2)

/-- The theme named `default`. -/
def defaultTheme : Document :=
  { name := some "Default"
    elements :=
      [entry "Element" [("shape", "RoundedBox"), ("color", "#ffffff")],
        entry "Person" [("shape", "Person"), ("background", "#08427b")],
        entry "Software System" [("background", "#1168bd")],
        entry "Container" [("background", "#438dd5")],
        entry "Component" [("background", "#85bbf0"), ("color", "#000000")],
        entry "Deployment Node" [("background", "#ffffff"), ("color", "#000000")],
        entry "Infrastructure Node" [("background", "#ffffff"), ("color", "#000000")],
        entry "Database" [("shape", "Cylinder")]]
    relationships := [[("tag", .string "Relationship"), ("dashed", .bool false)]] }

/-- The built-in theme that a URL names; colons before the name do not count. -/
def builtin? (url : Text) : Option Document :=
  if url.dropLeading ':' == "default" then some defaultTheme else none

/-! ## Finding a theme -/

/-- The failure to load the theme of a URL. -/
def failure (url : Text) (fault : ThemeFault) : Failure := .of (.theme url fault)

/-- The body that a request for a theme brings. -/
def fetch (world : World) (url : Text) : Except Failure Text :=
  match world.request url with
  | .refused reason => .error (failure url (.refused reason))
  | .failed reason => .error (.interrupted reason)
  | .answered status body =>
    if 400 ≤ status then .error (failure url (.status status)) else .ok body

/-- The path of the file that a URL means: after `file://` the path of the URL with its escapes
read, and otherwise the URL itself. -/
def filePath (url : Text) : Except Failure Text :=
  if url.startsWith "file://" then
    match Url.parse url with
    | .ok u => .ok (Url.percentDecoded u.path)
    | .error fault => .error (.url fault)
  else .ok url

/-- The text of the file that a URL means. -/
def read (world : World) (url : Text) : Except Failure Text := do
  let path ← filePath url
  (world.files.read path).mapError fun fault => .ofFile fault (failure url (.file fault))

/-- The scheme of a URL. -/
def scheme (url : Text) : Except Failure Text := (Url.schemeOf url).mapError .url

/-- Whether loading a theme takes a request. -/
def isFetched (url : Text) : Bool :=
  (builtin? url).isNone &&
    match scheme url with
    | .ok s => Url.isRemote s
    | .error _ => false

/-- The theme of a URL. -/
def find (world : World) (url : Text) : Except Failure Document :=
  match builtin? url with
  | some document => .ok document
  | none => do
    let text ← if Url.isRemote (← scheme url) then fetch world url else read world url
    let value ← (Json.parse text).mapError fun fault =>
      .ofSyntax fault (failure url (.notJson fault.problem))
    (Document.ofJson value).mapError fun fault => failure url (.schema fault)

/-! ## Rules of a theme -/

/-- The fields of an entry with its icon resolved against the base. An icon with a scheme stays. -/
def resolveIcon (url : Text) (base : Option Url) (fields : Json.Fields) :
    Except Failure (Json.Fields) :=
  match Json.find? fields "icon", base with
  | some icon, some base =>
    if icon.isEmpty then .ok fields
    else
      match icon with
      | .string s => (·.mapError fun fault => failure url (.icon fault)) <| do
        let scheme ← Url.schemeOf s
        if scheme != "" then return fields
        else
          let reference ← Url.parse s base.scheme
          return Json.put fields "icon" (.string (base.resolve reference).toText)
      | j => .error (.noText j.typeWord)
  | _, _ => .ok fields

/-- The rule that an entry of a theme spells. -/
def rule (url source : Text) (target : Target) (fields : Json.Fields) :
    Except Failure Rule :=
  (Rule.ofFields target source fields).mapError fun fault => failure url (.rule fault)

/-- The rules of the theme of a URL: those for elements, then those for relationships. -/
def load (world : World) (url : Text) : Except Failure (List Rule) := do
  let document ← find world url
  let parsed ← (Url.parse url).mapError Failure.url
  let base := if Url.isBase parsed.scheme then some parsed else none
  let source := "theme:" ++ (document.name.filter (!·.isEmpty)).getD url
  let elements ← document.elements.mapM fun fields => do
    rule url source .element (← resolveIcon url base fields)
  let relationships ← document.relationships.mapM (rule url source .relationship)
  return elements ++ relationships

end SystemAtlas.Style.Theme
