import SystemAtlas.Declaration.Form
import SystemAtlas.Declaration.Member

/-! # Reading declarations of a model

Every member is read by its kind. The members of a deployment node may be deployment nodes again, so
those are read along the structure of the document, down to a limit of depth.
-/

namespace SystemAtlas.Declaration

open Checked Identifier
open Json (Fields)

/-- A local name. -/
def localName (j : Json) : Checked LocalName :=
  (text j).andThen fun s => (LocalName.ofText? s).elim (.error .badIdentifier) .ok

/-- The line of a declaration, if it has one. -/
def lineOf (fields : Fields) : Checked (Option Int) := field fields "line" none (optional integer)

/-- The identifier of a declaration, if it has one. -/
def identifierOf (fields : Fields) : Checked (Option LocalName) :=
  field fields "identifier" none (optional localName)

/-- The keys of what is said of an element. -/
def Details.keys : List Text :=
  ["line", "identifier", "name", "description", "technology", "tags", "url", "properties", "kind"]

/-- What is said of an element, in fields. -/
def Details.ofFields (fields : Fields) : Checked Details :=
  Details.mk <$> lineOf fields <*> identifierOf fields <*> required fields "name" text
    <*> field fields "description" "" text <*> field fields "technology" "" text
    <*> field fields "tags" [] texts <*> field fields "url" "" text
    <*> field fields "properties" [] dictionary

/-- An element without members. -/
def single (fields : Fields) (make : Details → α) : Checked α :=
  closed Details.keys fields (make <$> Details.ofFields fields)

/-- An element with a body. -/
def block (fields : Fields) (make : Details → List β → α) (member : Json → Checked β) : Checked α :=
  closed ("body" :: Details.keys) fields <|
    make <$> Details.ofFields fields <*> field fields "body" [] (list member)

/-- How the ends of a relationship interact. -/
def interactionOf : Json → Checked Model.Interaction :=
  choice [("synchronous", .synchronous), ("asynchronous", .asynchronous)]

/-- The keys of a relationship. -/
def Relationship.keys : List Text :=
  ["line", "kind", "source", "destination", "label", "technology", "interaction", "tags",
    "parallel"]

/-- A relationship. -/
def Relationship.ofFields (fields : Fields) : Checked Relationship :=
  closed Relationship.keys fields <|
    Relationship.mk <$> lineOf fields <*> required fields "source" text
      <*> required fields "destination" text <*> field fields "label" "" text
      <*> field fields "technology" "" text
      <*> field fields "interaction" none (optional interactionOf)
      <*> field fields "tags" [] texts <*> field fields "parallel" false boolean

/-- The keys of an instance. -/
def Instance.keys : List Text :=
  ["line", "identifier", "element", "groups", "tags", "description", "kind"]

/-- An instance of the given kind. -/
def Instance.ofFields (kind : InstanceKind) (fields : Fields) : Checked Instance :=
  closed Instance.keys fields <|
    Instance.mk kind <$> lineOf fields <*> identifierOf fields <*> required fields "element" text
      <*> field fields "groups" [] texts <*> field fields "tags" [] texts
      <*> field fields "description" "" text

/-- The keys of a name. -/
def Named.keys : List Text := ["line", "identifier", "kind", "name"]

/-- A name, in fields. -/
def Named.ofFields (fields : Fields) : Checked Named :=
  Named.mk <$> lineOf fields <*> identifierOf fields <*> required fields "name" text

/-- An object that is one of several kinds. -/
def member (forms : Fields → List (Text × (Unit → Checked α))) : Json → Checked α
  | .object fields => kinded fields (forms fields)
  | _ => fault .notMember

/-- A member of a container. -/
def ContainerMember.ofJson : Json → Checked ContainerMember :=
  member fun fields =>
    [("component", fun _ => single fields .component),
      ("relationship", fun _ => .relationship <$> Relationship.ofFields fields)]

/-- A member of a software system. -/
def SystemMember.ofJson : Json → Checked SystemMember :=
  member fun fields =>
    [("container", fun _ => block fields .container ContainerMember.ofJson),
      ("relationship", fun _ => .relationship <$> Relationship.ofFields fields)]

/-- The most deployment nodes that may lie inside one another. -/
def depthLimit : Nat := 254

/-- A deployment node with its body, at the given depth below its environment. -/
def nodeOf (depth : Nat) (fields : Fields) (make : Details → Int → List β → α)
    (body : Unit → Checked (List β)) : Checked α :=
  if depthLimit < depth then fault .tooDeep
  else
    closed ("instances" :: "body" :: Details.keys) fields <|
      make <$> Details.ofFields fields <*> field fields "instances" 1 (integerFrom 1) <*> body ()

mutual

/-- A member of a deployment node, at the given depth below its environment. -/
def NodeMember.ofJson (depth : Nat) : Json → Checked NodeMember
  | .object fields =>
    kinded fields
      [("deployment_node", fun _ => nodeOf depth fields .node fun _ => bodyOf (depth + 1) fields),
        ("infrastructure_node", fun _ => single fields .infrastructure),
        ("container_instance", fun _ => .occurrence <$> Instance.ofFields .container fields),
        ("component_instance", fun _ => .occurrence <$> Instance.ofFields .component fields),
        ("relationship", fun _ => .relationship <$> Relationship.ofFields fields)]
  | _ => fault .notMember

/-- The body among the fields of a deployment node, its members at the given depth. -/
def bodyOf (depth : Nat) : Fields → Checked (List NodeMember)
  | [] => ok []
  | (k, j) :: rest =>
    if k == "body" then (membersOf depth j).under "body" else bodyOf depth rest

/-- A list of members of a deployment node, at the given depth. -/
def membersOf (depth : Nat) : Json → Checked (List NodeMember)
  | .array items => membersFrom depth 0 items
  | _ => fault .notList

/-- Members of a deployment node from position `i` on, at the given depth. -/
def membersFrom (depth i : Nat) : List Json → Checked (List NodeMember)
  | [] => ok []
  | j :: rest =>
    List.cons <$> (NodeMember.ofJson depth j).under (.ofNat i)
      <*> membersFrom depth (i + 1) rest

end

/-- A member of a deployment environment. -/
def EnvironmentMember.ofJson : Json → Checked EnvironmentMember :=
  member fun fields =>
    [("deployment_group", fun _ => closed Named.keys fields (.group <$> Named.ofFields fields)),
      ("deployment_node", fun _ => nodeOf 1 fields .node fun _ => bodyOf 2 fields),
      ("relationship", fun _ => .relationship <$> Relationship.ofFields fields)]

/-- A deployment environment. -/
def environmentOf (fields : Fields) : Checked ModelMember :=
  closed ("body" :: Named.keys) fields <|
    .environment <$> Named.ofFields fields
      <*> field fields "body" [] (list EnvironmentMember.ofJson)

/-- A member of a model. -/
def ModelMember.ofJson : Json → Checked ModelMember :=
  member fun fields =>
    [("person", fun _ => single fields .person),
      ("software_system", fun _ => block fields .system SystemMember.ofJson),
      ("deployment_environment", fun _ => environmentOf fields),
      ("relationship", fun _ => .relationship <$> Relationship.ofFields fields)]

end SystemAtlas.Declaration
