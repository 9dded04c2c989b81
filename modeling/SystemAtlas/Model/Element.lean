import SystemAtlas.Json.Basic
import SystemAtlas.Model.Tags

/-! # Elements

An element is static structure (people, software systems, containers, components) or lives in a
deployment environment (nodes, groups, instances). Its role says which, with what only that role
has. The tags of an element start with `Element` and the label of its type.
-/

namespace SystemAtlas.Model

/-- The types of element. `element`, `deploymentElement` and `anyInstance` are the general ones that
others belong to. -/
inductive ElementType where
  | element
  | person
  | softwareSystem
  | container
  | component
  | deploymentElement
  | deploymentNode
  | infrastructureNode
  | deploymentGroup
  | anyInstance
  | containerInstance
  | componentInstance
  deriving DecidableEq, Inhabited

namespace ElementType

/-- Every type of element. -/
def all : List ElementType :=
  [element, person, softwareSystem, container, component, deploymentElement, deploymentNode,
    infrastructureNode, deploymentGroup, anyInstance, containerInstance, componentInstance]

/-- The name of a type. -/
def name : ElementType → Text
  | element => "Element"
  | person => "Person"
  | softwareSystem => "SoftwareSystem"
  | container => "Container"
  | component => "Component"
  | deploymentElement => "DeploymentElement"
  | deploymentNode => "DeploymentNode"
  | infrastructureNode => "InfrastructureNode"
  | deploymentGroup => "DeploymentGroup"
  | anyInstance => "Instance"
  | containerInstance => "ContainerInstance"
  | componentInstance => "ComponentInstance"

/-- The type with the given name. -/
def ofName? (s : Text) : Option ElementType := all.find? (·.name == s)

/-- The label of a type, which is also a tag of its elements. The general types share one. -/
def label : ElementType → Text
  | element | deploymentElement | anyInstance => "Element"
  | person => "Person"
  | softwareSystem => "Software System"
  | container => "Container"
  | component => "Component"
  | deploymentNode => "Deployment Node"
  | infrastructureNode => "Infrastructure Node"
  | deploymentGroup => "Deployment Group"
  | containerInstance => "Container Instance"
  | componentInstance => "Component Instance"

/-- Whether a type is that of instances. -/
def isInstance : ElementType → Bool
  | anyInstance | containerInstance | componentInstance => true
  | _ => false

/-- Whether the elements of a type live in a deployment environment. -/
def isDeployed : ElementType → Bool
  | deploymentElement | deploymentNode | infrastructureNode | deploymentGroup => true
  | t => t.isInstance

/-- Whether the elements of one type count as elements of another. -/
def isA (t : ElementType) : ElementType → Bool
  | element => true
  | deploymentElement => t.isDeployed
  | anyInstance => t.isInstance
  | u => t == u

end ElementType

/-- The types of static structure. -/
inductive StaticType where
  | plain
  | person
  | softwareSystem
  | container
  | component
  deriving DecidableEq, Inhabited

/-- The types of instance, by what they are instances of. -/
inductive InstanceType where
  | plain
  | container
  | component
  deriving DecidableEq, Inhabited

/-- What an element of a deployment environment is. -/
inductive DeployedPart where
  | plain
  | node (instances : Int)
  | infrastructure
  | group
  /-- An instance of a definition, with the deployment groups it is in and its number among the
  instances of the definition in its environment. -/
  | occurrence (type : InstanceType) (definition : Text) (groups : List Text) (number : Int)
  deriving DecidableEq, Inhabited

/-- What an element is. -/
inductive Role where
  | static (type : StaticType)
  | deployed (environment : Text) (part : DeployedPart)
  deriving DecidableEq, Inhabited

/-- The type of element that a type of static structure is. -/
def StaticType.elementType : StaticType → ElementType
  | plain => .element
  | person => .person
  | softwareSystem => .softwareSystem
  | container => .container
  | component => .component

/-- The type of element that a type of instance is. -/
def InstanceType.elementType : InstanceType → ElementType
  | plain => .anyInstance
  | container => .containerInstance
  | component => .componentInstance

/-- The type of element that a part of an environment is. -/
def DeployedPart.elementType : DeployedPart → ElementType
  | plain => .deploymentElement
  | node _ => .deploymentNode
  | infrastructure => .infrastructureNode
  | group => .deploymentGroup
  | occurrence type .. => type.elementType

/-- The type of element that has a role. -/
def Role.elementType : Role → ElementType
  | static type => type.elementType
  | deployed _ part => part.elementType

/-- An element of a model. -/
structure Element where
  id : Text
  name : Text
  description : Option Text := some ""
  technology : Option Text := some ""
  parent : Option Text := none
  ownTags : List Text := []
  url : Option Text := some ""
  properties : List (Text × Text) := []
  role : Role
  deriving DecidableEq, Inhabited

namespace Element

/-- The type of an element. -/
def type (e : Element) : ElementType := e.role.elementType

/-- Whether an element belongs to a type. -/
def isA (e : Element) (t : ElementType) : Bool := e.type.isA t

/-- Whether an element is static structure. -/
def isStatic (e : Element) : Bool :=
  match e.role with
  | .static _ => true
  | .deployed .. => false

/-- The tags that every element of a type has. -/
def defaultTags (t : ElementType) : List Text := ["Element", t.label]

/-- The tags of an element: those of its type, then its own. -/
def tags (e : Element) : List Text := mergeTags [defaultTags e.type, e.ownTags]

/-- The environment of an element that lives in one. -/
def environment? (e : Element) : Option Text :=
  match e.role with
  | .static _ => none
  | .deployed environment _ => some environment

/-- The definition of an instance. -/
def definition? (e : Element) : Option Text :=
  match e.role with
  | .deployed _ (.occurrence _ definition _ _) => some definition
  | _ => none

/-- The deployment groups of an instance. -/
def groups (e : Element) : List Text :=
  match e.role with
  | .deployed _ (.occurrence _ _ groups _) => groups
  | _ => []

/-- Whether an element is an instance. -/
def isInstance (e : Element) : Bool := e.isA .anyInstance

/-- Whether an element is a deployment group. -/
def isGroup (e : Element) : Bool := e.isA .deploymentGroup

/-- Whether two instances have a deployment group in common, or one of them has none. -/
def sharesGroupWith (e other : Element) : Bool :=
  e.groups.isEmpty || other.groups.isEmpty || e.groups.any other.groups.contains

/-- The fields that only some roles have. -/
def roleFields (e : Element) : Json.Fields :=
  match e.role with
  | .static _ => []
  | .deployed environment part =>
    ("environment", .string environment) ::
      match part with
      | .node instances => [("instances", .int instances)]
      | .occurrence _ definition groups number =>
        [("definition", .string definition), ("groups", .ofTexts groups),
          ("instance_id", .int number)]
      | _ => []

/-- The fields that every element has. -/
def commonFields (e : Element) : Json.Fields :=
  [("id", .string e.id), ("type", .string e.type.label), ("name", .string e.name),
    ("description", .ofText? e.description), ("technology", .ofText? e.technology),
    ("parent", .ofText? e.parent), ("tags", .ofTexts e.tags), ("url", .ofText? e.url),
    ("properties", .object (e.properties.map fun p => (p.1, .string p.2)))]

/-- An element as a value. -/
def toJson (e : Element) : Json := .object (e.commonFields ++ e.roleFields)

end Element

end SystemAtlas.Model
