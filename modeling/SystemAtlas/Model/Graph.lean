import SystemAtlas.Error
import SystemAtlas.Distinct
import SystemAtlas.Model.Element
import SystemAtlas.Model.Relationship

/-! # The model graph

A graph holds the elements, relationships and deployment environments of a workspace in the order
they were added. An element is added after its parent, and a relationship after its ends, so the
parents form a forest. A frozen graph takes nothing more.
-/

namespace SystemAtlas.Model

/-- A deployment environment. -/
structure Environment where
  id : Text
  name : Text
  deriving DecidableEq, Inhabited

/-- An environment as a value. -/
def Environment.toJson (e : Environment) : Json :=
  .object [("id", .string e.id), ("name", .string e.name)]

/-- The elements, relationships and environments of a workspace. -/
structure Graph where
  elements : List Element := []
  relationships : List Relationship := []
  environments : List Environment := []
  frozen : Bool := false
  deriving DecidableEq, Inhabited

namespace Graph

/-- The graph, complete. -/
def freeze (g : Graph) : Graph := { g with frozen := true }

/-! ## Elements -/

/-- The element with the given id. -/
def find? (g : Graph) (id : Text) : Option Element := g.elements.find? (·.id == id)

/-- Whether an element has the given id. -/
def contains (g : Graph) (id : Text) : Bool := g.elements.any (·.id == id)

/-- The element with the given id, or a refusal. -/
def get (g : Graph) (id : Text) : Except Failure Element :=
  match g.find? id with
  | some e => .ok e
  | none => .error (.of (.elementMissing id))

/-- The graph with an environment added. Its id must be new among the environments. -/
def addEnvironment (g : Graph) (e : Environment) : Except Failure Graph :=
  if g.frozen then .error .frozen
  else if g.environments.any (·.id == e.id) then .error (.of (.environmentTaken e.id e.name))
  else .ok { g with environments := g.environments ++ [e] }

/-- The graph with an element added. Its id must be new and its parent must be there. -/
def addElement (g : Graph) (e : Element) : Except Failure Graph :=
  if g.frozen then .error .frozen
  else if g.contains e.id then .error (.of (.elementTaken e.id))
  else
    match e.parent.filter (!g.contains ·) with
    | some parent => .error (.of (.parentMissing parent e.id))
    | none => .ok { g with elements := g.elements ++ [e] }

/-- The environment that has the given id, or else the first one with it as name. -/
def findEnvironment? (g : Graph) (reference : Text) : Option Environment :=
  g.environments.find? (·.id == reference) <|> g.environments.find? (·.name == reference)

/-- The elements that belong to a type. -/
def ofType (g : Graph) (t : ElementType) : List Element := g.elements.filter (·.isA t)

/-- The elements with the given parent, or without one. -/
def children (g : Graph) (parent : Option Text) : List Element :=
  g.elements.filter (·.parent == parent)

/-- At most `fuel` steps up from a parent. -/
def ancestorsUpTo (g : Graph) : Nat → Option Text → List Element
  | 0, _ | _, none => []
  | fuel + 1, some parent =>
    match g.find? parent with
    | some e => e :: g.ancestorsUpTo fuel e.parent
    | none => []

/-- The elements above the element with the given id, nearest first. There are no more of them than
elements. -/
def ancestors (g : Graph) (id : Text) : List Element :=
  match g.find? id with
  | some e => g.ancestorsUpTo g.elements.length e.parent
  | none => []

/-- At most `fuel` levels below an element. -/
def descendantsUpTo (g : Graph) : Nat → Text → List Element
  | 0, _ => []
  | fuel + 1, id => (g.children (some id)).flatMap fun c => c :: g.descendantsUpTo fuel c.id

/-- The elements below the element with the given id, each after its parent. There are no more
levels of them than elements. -/
def descendants (g : Graph) (id : Text) : List Element := g.descendantsUpTo g.elements.length id

/-- Whether the element `ancestor` lies above the element `id`. -/
def isAncestor (g : Graph) (ancestor id : Text) : Bool :=
  (g.ancestors id).any (·.id == ancestor)

/-- An id and those of the elements above it, nearest first. -/
def lineage (g : Graph) (id : Text) : List Text := id :: (g.ancestors id).map (·.id)

/-- The elements that live in an environment. -/
def inEnvironment (g : Graph) (environment : Text) : List Element :=
  g.elements.filter (·.environment? == some environment)

/-- The instances of a definition. -/
def instancesOf (g : Graph) (definition : Text) : List Element :=
  g.elements.filter (·.definition? == some definition)

/-! ## Relationships -/

/-- The id of the `n`-th relationship. -/
def relationshipId (n : Nat) : Text := "r" ++ toString n

/-- The relationship with the given id, or a refusal. -/
def getRelationship (g : Graph) (id : Text) : Except Failure Relationship :=
  match g.relationships.find? (·.id == id) with
  | some r => .ok r
  | none => .error (.of (.relationshipMissing id))

/-- Whether some relationship leads from one element to another. -/
def connects (g : Graph) (source destination : Text) : Bool :=
  g.relationships.any fun r => r.source == source && r.destination == destination

/-- Whether some relationship with the given label leads from one element to another. -/
def connectsAs (g : Graph) (source destination : Text) (label : Option Text) : Bool :=
  g.relationships.any fun r =>
    r.source == source && r.destination == destination && r.label == label

/-- Whether some relationship leads from one element to another, with the given label if there is
one. -/
def hasRelationship (g : Graph) (source destination : Text) (label : Option Text) : Bool :=
  match label with
  | some _ => g.connectsAs source destination label
  | none => g.connects source destination

/-- The graph with a link added as its latest relationship. Both ends must be there, and unless the
link is parallel no relationship may have the same ends and label. -/
def addRelationship (g : Graph) (l : Link) : Except Failure Graph :=
  let missing endpoint := Failure.of (.endpointMissing endpoint l.source l.destination)
  if g.frozen then .error .frozen
  else if !g.contains l.source then .error (missing l.source)
  else if !g.contains l.destination then .error (missing l.destination)
  else if !l.parallel && g.connectsAs l.source l.destination l.label then
    .error (.of (.relationshipTaken l.source l.destination l.label))
  else
    let id := relationshipId (g.relationships.length + 1)
    .ok { g with relationships := g.relationships ++ [{ l with id }] }

/-- The relationships with both ends among the given elements. -/
def relationshipsBetween (g : Graph) (ids : List Text) : List Relationship :=
  g.relationships.filter fun r => ids.contains r.source && ids.contains r.destination

/-- The other end of a relationship seen from an element. A relationship of an element with itself
leads back to it. -/
def otherEnd? (id : Text) (r : Relationship) : Option Text :=
  if r.source == id then some r.destination
  else if r.destination == id then some r.source
  else none

/-- The ids connected to an element, in the order of the relationships. -/
def neighbours (g : Graph) (id : Text) : List Text :=
  distinct (g.relationships.filterMap (otherEnd? id))

/-- A graph as a value. -/
def toJson (g : Graph) : Json :=
  .object
    [("elements", .array (g.elements.map Element.toJson)),
      ("relationships", .array (g.relationships.map Relationship.toJson)),
      ("environments", .array (g.environments.map Environment.toJson))]

end Graph

end SystemAtlas.Model
