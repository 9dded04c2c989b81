import SystemAtlas.Identifier.LocalName
import SystemAtlas.Json.Basic
import SystemAtlas.Model.Relationship

/-! # Declarations of a model

A model is declared by members, and a block may hold members of its own. Which members a block can
hold is part of its type: containers stand in software systems, components in containers, instances
in deployment nodes. A declaration keeps the line it was written on, if that is known.
-/

namespace SystemAtlas.Declaration

open Identifier (LocalName)

/-- What is said of an element. -/
structure Details where
  line : Option Int := none
  identifier : Option LocalName := none
  name : Text
  description : Text := ""
  technology : Text := ""
  tags : List Text := []
  url : Text := ""
  properties : List (Text × Text) := []
  deriving DecidableEq, Inhabited

/-- A relationship between two references. -/
structure Relationship where
  line : Option Int := none
  source : Text
  destination : Text
  label : Text := ""
  technology : Text := ""
  interaction : Option Model.Interaction := none
  tags : List Text := []
  parallel : Bool := false
  deriving DecidableEq, Inhabited

/-- What an instance is an instance of. -/
inductive InstanceKind where
  | container
  | component
  deriving DecidableEq, Inhabited

/-- An instance of the element that a reference names. -/
structure Instance where
  kind : InstanceKind
  line : Option Int := none
  identifier : Option LocalName := none
  element : Text
  groups : List Text := []
  tags : List Text := []
  description : Text := ""
  deriving DecidableEq, Inhabited

/-- A name of something in a deployment. -/
structure Named where
  line : Option Int := none
  identifier : Option LocalName := none
  name : Text
  deriving DecidableEq, Inhabited

/-- A member of a container. -/
inductive ContainerMember where
  | component (details : Details)
  | relationship (relationship : Relationship)
  deriving DecidableEq, Inhabited

/-- A member of a software system. -/
inductive SystemMember where
  | container (details : Details) (body : List ContainerMember)
  | relationship (relationship : Relationship)
  deriving DecidableEq, Inhabited

/-- A member of a deployment node. -/
inductive NodeMember where
  | node (details : Details) (instances : Int) (body : List NodeMember)
  | infrastructure (details : Details)
  | occurrence (occurrence : Instance)
  | relationship (relationship : Relationship)
  deriving Inhabited

/-- A member of a deployment environment. -/
inductive EnvironmentMember where
  | group (group : Named)
  | node (details : Details) (instances : Int) (body : List NodeMember)
  | relationship (relationship : Relationship)
  deriving Inhabited

/-- A member of a model. -/
inductive ModelMember where
  | person (details : Details)
  | system (details : Details) (body : List SystemMember)
  | environment (environment : Named) (body : List EnvironmentMember)
  | relationship (relationship : Relationship)
  deriving Inhabited

/-! ## Declarations as values -/

/-- A local name or null. -/
def nameJson (n : Option LocalName) : Json := .ofText? (n.map (·.text))

/-- The fields of what is said of an element. -/
def Details.fields (d : Details) : Json.Fields :=
  [("line", .ofInt? d.line), ("identifier", nameJson d.identifier), ("name", .string d.name),
    ("description", .string d.description), ("technology", .string d.technology),
    ("tags", .ofTexts d.tags), ("url", .string d.url),
    ("properties", .object (d.properties.map fun p => (p.1, .string p.2)))]

/-- The fields of an object of the given kind. -/
def ofKind (kind : Text) (fields : Json.Fields) : Json :=
  .object (fields ++ ([("kind", .string kind)] : Json.Fields))

/-- A relationship as a value. -/
def Relationship.toJson (r : Relationship) : Json :=
  ofKind "relationship"
    [("line", .ofInt? r.line), ("source", .string r.source),
      ("destination", .string r.destination), ("label", .string r.label),
      ("technology", .string r.technology),
      ("interaction", .ofText? (r.interaction.map (·.name))), ("tags", .ofTexts r.tags),
      ("parallel", .bool r.parallel)]

/-- The name of a kind of instance. -/
def InstanceKind.name : InstanceKind → Text
  | container => "container_instance"
  | component => "component_instance"

/-- An instance as a value. -/
def Instance.toJson (i : Instance) : Json :=
  ofKind i.kind.name
    [("line", .ofInt? i.line), ("identifier", nameJson i.identifier),
      ("element", .string i.element), ("groups", .ofTexts i.groups), ("tags", .ofTexts i.tags),
      ("description", .string i.description)]

/-- The fields of a name. -/
def Named.fields (n : Named) : Json.Fields :=
  [("line", .ofInt? n.line), ("identifier", nameJson n.identifier), ("name", .string n.name)]

/-- A member of a container as a value. -/
def ContainerMember.toJson : ContainerMember → Json
  | component d => ofKind "component" d.fields
  | relationship r => r.toJson

/-- Fields with a body behind them. -/
def withBody (fields : Json.Fields) (body : List Json) : Json.Fields :=
  fields ++ ([("body", .array body)] : Json.Fields)

/-- A member of a software system as a value. -/
def SystemMember.toJson : SystemMember → Json
  | container d body =>
    ofKind "container" (withBody d.fields (body.map ContainerMember.toJson))
  | relationship r => r.toJson

/-- The fields of a deployment node. -/
def nodeFields (d : Details) (instances : Int) (body : List Json) : Json.Fields :=
  withBody (d.fields ++ ([("instances", .int instances)] : Json.Fields)) body

mutual

/-- A member of a deployment node as a value. -/
def NodeMember.toJson : NodeMember → Json
  | .node d instances body => ofKind "deployment_node" (nodeFields d instances (bodyJson body))
  | .infrastructure d => ofKind "infrastructure_node" d.fields
  | .occurrence i => i.toJson
  | .relationship r => r.toJson

/-- The members of a deployment node as values. -/
def bodyJson : List NodeMember → List Json
  | [] => []
  | m :: rest => m.toJson :: bodyJson rest

end

/-- A member of a deployment environment as a value. -/
def EnvironmentMember.toJson : EnvironmentMember → Json
  | group g => ofKind "deployment_group" g.fields
  | node d instances body => ofKind "deployment_node" (nodeFields d instances (bodyJson body))
  | relationship r => r.toJson

/-- A member of a model as a value. -/
def ModelMember.toJson : ModelMember → Json
  | person d => ofKind "person" d.fields
  | system d body =>
    ofKind "software_system" (withBody d.fields (body.map SystemMember.toJson))
  | environment n body =>
    ofKind "deployment_environment" (withBody n.fields (body.map EnvironmentMember.toJson))
  | relationship r => r.toJson

end SystemAtlas.Declaration
