import SystemAtlas.Model.Implied
import SystemAtlas.Model.Replication
import SystemAtlas.Model.Script
import SystemAtlas.Progress
import SystemAtlas.Scope

/-! # Assembling a model

A model is assembled in two passes over its declarations. The first declares: it goes through the
script, names every declaration and adds its element to the graph, and puts relationships aside with
the scope they stand in and the sequence number reached. The second links: it resolves the ends of
the relationships put aside. An end must be declared before the relationship, while an instance
finds its definition anywhere among the declarations before it.

A failure is annotated with the scope of the declaration it arose in, and with its line or that of
the nearest block around it.
-/

namespace SystemAtlas.Model

open Identifier (LocalName Registry Mode ScopePath)
open Declaration (Details Named Instance InstanceKind)

/-- A relationship put aside: where it stands, the element that owns the block it stands in, and the
sequence number of the latest declaration before it. -/
structure Pending where
  declaration : Declaration.Relationship
  scope : ScopePath
  owner : Option Text
  sequence : Nat
  deriving DecidableEq, Inhabited

/-- A model while it is assembled. -/
structure Assembly where
  registry : Registry
  graph : Graph := {}
  scope : Scope := {}
  pending : List Pending := []
  deriving DecidableEq, Inhabited

/-- A model that is complete. -/
structure Finished where
  registry : Registry
  graph : Graph
  deriving DecidableEq, Inhabited

/-- The reference that means the element a block belongs to. -/
def ownReference : Text := "this"

/-- The element that details make. -/
def element (d : Details) (role : Role) (parent : Option Text) (id : Text) : Element :=
  { id, name := d.name, description := d.description, technology := d.technology, parent
    ownTags := d.tags, url := d.url, properties := d.properties, role }

/-- The type of the definitions of a kind of instance. -/
def definitionType : InstanceKind → ElementType
  | .container => .container
  | .component => .component

/-- The type of a kind of instance. -/
def instanceType : InstanceKind → InstanceType
  | .container => .container
  | .component => .component

namespace Assembly

/-- The environment around the next declaration. -/
def environment (a : Assembly) : Text := a.scope.environment.getD ""

/-! ## Declaring -/

/-- The assembly with a declaration named, and its id. A declaration without an identifier is named
after its display name. -/
def identify (a : Assembly) (identifier : Option LocalName) (name : Text) :
    Except Failure (Text × Assembly) := do
  let (id, registry) ←
    match identifier with
    | some n => a.registry.declare n.text a.scope.path
    | none => a.registry.allocate name a.scope.path
  return (id, { a with registry, scope := a.scope.record id })

/-- The assembly with an element named and added, and its id. -/
def addElement (a : Assembly) (identifier : Option LocalName) (name : Text)
    (make : Text → Element) : Except Failure (Text × Assembly) := do
  let (id, a) ← a.identify identifier name
  return (id, { a with graph := ← a.graph.addElement (make id) })

/-- The assembly with the element of the given details added, and its id. -/
def addDetails (a : Assembly) (d : Details) (role : Role) (parent : Option Text) :
    Except Failure (Text × Assembly) :=
  a.addElement d.identifier d.name (element d role parent)

/-- The assembly inside the block that a declared id opens. -/
def openBlock (a : Assembly) (id : Text) (element environment : Option Text)
    (line : Option Int) : Except Failure Assembly := do
  let path ← a.registry.framePath id
  return { a with scope := a.scope.enter { path, element, environment, line } }

/-- The assembly inside the block of an element. -/
def openElement (a : Assembly) (d : Details) (role : Role) (parent : Option Text) :
    Except Failure Assembly := do
  let (id, a) ← a.addDetails d role parent
  a.openBlock id (some id) none d.line

/-- The assembly inside the block of an environment. -/
def openEnvironment (a : Assembly) (n : Named) : Except Failure Assembly := do
  let (id, a) ← a.identify n.identifier n.name
  let a := { a with graph := ← a.graph.addEnvironment ⟨id, n.name⟩ }
  a.openBlock id none (some id) n.line

/-- The definition that a reference names, of the type that the kind of instance asks for. -/
def definition (a : Assembly) (kind : InstanceKind) (reference : Text) :
    Except Failure Element := do
  let ofType id := (a.graph.find? id).any (·.isA (definitionType kind))
  a.graph.get (← a.registry.lookup reference ofType)

/-- Whether an id is that of a deployment group of the environment around the next declaration. -/
def isGroupHere (a : Assembly) (id : Text) : Bool :=
  (a.graph.find? id).any fun e => e.isGroup && e.environment? == a.scope.environment

/-- The deployment group that a reference names. -/
def group (a : Assembly) (reference : Text) : Except Failure Text := do
  let id ← a.registry.resolve reference a.scope.path
  if a.isGroupHere id then return id else throw (.of (.notGroup reference))

/-- The number of instances of a definition in the environment around the next declaration. -/
def instanceCount (a : Assembly) (definition : Text) : Nat :=
  ((a.graph.instancesOf definition).filter (·.environment? == some a.environment)).length

/-- The element that an instance of a definition is. -/
def occurrence (a : Assembly) (i : Instance) (definition : Element) (groups : List Text)
    (id : Text) : Element :=
  { id
    name := definition.name
    description := if i.description == "" then definition.description else some i.description
    technology := definition.technology
    parent := a.scope.element
    ownTags := i.tags
    role := .deployed a.environment
      (.occurrence (instanceType i.kind) definition.id groups (a.instanceCount definition.id + 1)) }

/-- The assembly with an instance added. One without an identifier is named after its definition. -/
def addInstance (a : Assembly) (i : Instance) : Except Failure Assembly := do
  let definition ← a.definition i.kind i.element
  let groups ← i.groups.mapM a.group
  let name ← a.registry.localName definition.id
  (·.2) <$> a.addElement i.identifier name (a.occurrence i definition groups)

/-- The assembly inside the block that a declaration opens. -/
def enter (a : Assembly) : Block → Except Failure Assembly
  | .system d => a.openElement d (.static .softwareSystem) none
  | .container d => a.openElement d (.static .container) a.scope.element
  | .node d instances => a.openElement d (.deployed a.environment (.node instances)) a.scope.element
  | .environment n => a.openEnvironment n

/-- The assembly with a declaration without members added. -/
def add (a : Assembly) : Leaf → Except Failure Assembly
  | .person d => (·.2) <$> a.addDetails d (.static .person) none
  | .component d => (·.2) <$> a.addDetails d (.static .component) a.scope.element
  | .infrastructure d =>
    (·.2) <$> a.addDetails d (.deployed a.environment .infrastructure) a.scope.element
  | .group n =>
    (·.2) <$> a.addElement n.identifier n.name fun id =>
      { id, name := n.name, role := .deployed a.environment .group }
  | .occurrence i => a.addInstance i

/-- The assembly with a relationship put aside. -/
def setAside (a : Assembly) (r : Declaration.Relationship) : Assembly :=
  let pending : Pending := ⟨r, a.scope.path, a.scope.element, a.registry.sequence⟩
  { a with pending := a.pending ++ [pending] }

/-- The assembly after one entry of the script. -/
def declare (a : Assembly) (e : Event) : Except Failure Assembly :=
  let after :=
    match e with
    | .enter block => a.enter block
    | .leave => .ok { a with scope := a.scope.leave }
    | .add leaf => a.add leaf
    | .relate r => .ok (a.setAside r)
  after.mapError (·.annotate a.scope.path (e.line <|> a.scope.line))

/-- The assembly after a script, or as far as it got. -/
def declareAll (a : Assembly) (events : List Event) : Progress Failure Assembly :=
  .run declare a events

/-! ## Linking -/

/-- What is wrong with a reference to an id that is declared after the relationship. -/
def tooEarly (a : Assembly) (p : Pending) (reference id : Text) : Cause :=
  match p.owner.filter (a.graph.isAncestor · id) with
  | some owner => .laterDescendant reference owner id
  | none => .notYetDeclared reference id

/-- The id that an end of a relationship put aside refers to. -/
def endpoint (a : Assembly) (p : Pending) (reference : Text) : Except Failure Text :=
  if reference == ownReference then p.owner.elim (.error (.of (.noOwner reference))) .ok
  else do
    let id ← a.registry.resolve reference p.scope
    match (a.graph.find? id).filter (!·.isGroup) with
    | none => throw (.of (.notElement reference id))
    | some _ =>
      let sequence ← a.registry.sequenceOf id
      if sequence ≤ p.sequence then return id
      else throw (.of (a.tooEarly p reference id))

/-- The link that a relationship put aside declares. -/
def resolveLink (a : Assembly) (p : Pending) : Except Failure Link := do
  let r := p.declaration
  let source ← a.endpoint p r.source
  let destination ← a.endpoint p r.destination
  return { source, destination, label := r.label, technology := r.technology
           interaction := r.interaction, ownTags := r.tags, parallel := r.parallel }

/-- The assembly with a relationship put aside added to the graph. -/
def link (a : Assembly) (p : Pending) : Except Failure Assembly :=
  let after := do return { a with graph := ← a.graph.addRelationship (← a.resolveLink p) }
  after.mapError (·.annotate p.scope p.declaration.line)

/-- The assembly with everything put aside linked, or as far as it got. -/
def linkAll (a : Assembly) : Progress Failure Assembly := .run link a a.pending

/-! ## The whole model -/

/-- The complete model of an assembly in which everything is linked: relationships are implied and
copied to instances, and the graph takes nothing more. -/
def finish (a : Assembly) : Except Failure Finished := do
  let graph ← (← a.graph.withImplied).withInstanceRelationships
  return { registry := a.registry, graph := graph.freeze }

end Assembly

/-- The model that declarations make. -/
def assemble (mode : Mode) (members : List Declaration.ModelMember) : Except Failure Finished := do
  let declared ← (Assembly.declareAll { registry := { mode } } (script members)).result
  (← declared.linkAll.result).finish

end SystemAtlas.Model
