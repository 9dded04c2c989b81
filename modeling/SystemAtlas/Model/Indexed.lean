import SystemAtlas.Edit
import SystemAtlas.Model.Graph
import SystemAtlas.Table

/-! # Indexed graphs

A graph as it is kept: besides its elements and relationships there are the ids of the children
under every parent, and the first relationship under every pair of ends and label. An addition is
an edit that changes one after the other.

The walks upward and downward follow parents and children as long as there are any. A walk may take
as many steps as there are elements; `none` stands for one that is not over then.
-/

namespace SystemAtlas.Model

/-- What tells relationships apart that are not parallel: both ends and the label. -/
abbrev Link.Key := Text × Text × Option Text

/-- The key of a link. -/
def Link.key (l : Link) : Link.Key := (l.source, l.destination, l.label)

/-- A graph with the children of its elements and the first relationship of every key. -/
structure Indexed extends Graph where
  childIds : Table (Option Text) (List Text) := {}
  byKey : Table Link.Key Relationship := {}
  deriving DecidableEq, Inhabited

namespace Indexed

/-- What follows elements as far as they lead. It may be refused, and it may not be over after the
steps that it may take. -/
abbrev Walk := ExceptT Failure Option

/-- A walk that is not over. -/
def Walk.unfinished {α : Type} : Walk α := ExceptT.lift none

/-! ## Additions -/

/-- A refusal, if the graph takes nothing more. -/
def checkMutable : Edit Indexed Unit := Edit.refuseIf (·.frozen) .frozen

/-- The graph takes nothing more from now on. -/
def freeze : Edit Indexed Unit := modify fun s => { s with frozen := true }

/-- An environment is added. Its id must be new among the environments. -/
def addEnvironment (v : Environment) : Edit Indexed Environment := do
  checkMutable
  Edit.refuseIf (·.environments.any (·.id == v.id)) (.of (.environmentTaken v.id v.name))
  modify fun s => { s with environments := s.environments ++ [v] }
  return v

/-- An element is added. Its id must be new and its parent must be there. -/
def addElement (e : Element) : Edit Indexed Element := do
  checkMutable
  Edit.refuseIf (·.contains e.id) (.of (.elementTaken e.id))
  if let some parent := e.parent then
    Edit.refuseIf (!·.contains parent) (.of (.parentMissing parent e.id))
  modify fun s => { s with elements := s.elements ++ [e] }
  modify fun s => { s with childIds := s.childIds.push e.parent e.id }
  return e

/-- A link is added as the latest relationship. Both ends must be there, and unless the link is
parallel no relationship may have the same ends and label. -/
def addRelationship (l : Link) : Edit Indexed Relationship := do
  checkMutable
  forM [l.source, l.destination] fun endpoint =>
    Edit.refuseIf (!·.contains endpoint) (.of (.endpointMissing endpoint l.source l.destination))
  Edit.refuseIf (fun s => s.byKey.contains l.key && !l.parallel)
    (.of (.relationshipTaken l.source l.destination l.label))
  let r : Relationship :=
    { l with id := Graph.relationshipId ((← get).relationships.length + 1) }
  modify fun s => { s with relationships := s.relationships ++ [r] }
  modify fun s => { s with byKey := s.byKey.setDefault l.key r }
  return r

/-! ## Elements -/

/-- The element of an id that must be known. -/
def known (s : Indexed) (id : Text) : Except Failure Element :=
  match s.find? id with
  | some e => .ok e
  | none => .error (.missingKey id)

/-- The elements with the given parent, or without one. -/
def children (s : Indexed) (parent : Option Text) : Except Failure (List Element) :=
  ((s.childIds.get? parent).getD []).mapM s.known

/-- The elements already met on the way up, and those from a parent on; unfinished if there are more
than so many of these. -/
def climb (s : Indexed) : Nat → List Element → Option Text → Walk (List Element)
  | _, met, none => return met
  | 0, _, some _ => .unfinished
  | more + 1, met, some id => do
    let e ← s.known id
    s.climb more (met ++ [e]) e.parent

/-- The elements above an element that must be there, nearest first. The walk may take a step for
every element. -/
def ancestors (s : Indexed) (id : Text) : Walk (List Element) := do
  s.climb s.elements.length [] (← s.get id).parent

/-- The elements below an id, each in front of those below it; unfinished if there are as many
levels of them or more. -/
def descend (s : Indexed) : Nat → Text → Walk (List Element)
  | 0, _ => .unfinished
  | levels + 1, id => do
    let below ← (← s.children (some id)).mapM fun c => return c :: (← s.descend levels c.id)
    return below.flatten

/-- The elements below an id, each in front of those below it. The walk may go through a level for
every element. -/
def descendants (s : Indexed) (id : Text) : Walk (List Element) :=
  s.descend (s.elements.length + 1) id

/-- Whether an element lies above an element that must be there. -/
def isAncestor (s : Indexed) (ancestor id : Text) : Walk Bool := do
  return (← s.ancestors id).any (·.id == ancestor)

/-! ## Relationships -/

/-- Whether some relationship leads from one element to another, with the given label if there is
one. -/
def hasRelationship (s : Indexed) (source destination : Text) (label : Option Text) : Bool :=
  match label with
  | some _ => s.byKey.contains (source, destination, label)
  | none => s.connects source destination

end Indexed

end SystemAtlas.Model
