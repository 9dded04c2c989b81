import SystemAtlas.Model.Graph

/-! # Implied relationships

A declared relationship between static elements is implied upward: whoever uses a container also
uses its system. For every element at or above the source and every one at or above the destination
a relationship is added, unless the two are the same, one lies above the other, or some relationship
leads from the one to the other already.
-/

namespace SystemAtlas.Model

/-- A link derived from a relationship, between other ends. -/
def Relationship.derive (r : Relationship) (source destination : Text) : Link :=
  { r with source, destination, ownTags := r.tags, linkedTo := some r.id }

namespace Graph

/-- Whether the element with the given id is there and is static. -/
def isStatic (g : Graph) (id : Text) : Bool := (g.find? id).any (·.isStatic)

/-- Whether a relationship can imply one between two elements. -/
def mayImply (g : Graph) (source destination : Text) : Bool :=
  source != destination && !g.isAncestor source destination && !g.isAncestor destination source

/-- The pairs that a relationship implies, other than its own ends. -/
def impliedPairs (g : Graph) (r : Relationship) : List (Text × Text) :=
  ((g.lineage r.source).flatMap fun s => (g.lineage r.destination).map fun d => (s, d)).filter
    fun p => p != (r.source, r.destination) && g.mayImply p.1 p.2

/-- The graph with the relationship that `r` implies between two elements, if nothing connects them
yet. -/
def imply (r : Relationship) (g : Graph) (pair : Text × Text) : Except Failure Graph :=
  if g.connects pair.1 pair.2 then .ok g
  else g.addRelationship { r.derive pair.1 pair.2 with implied := true, parallel := false }

/-- Whether relationships are implied by `r`: it is not implied itself and both its ends are
static. -/
def isImplying (g : Graph) (r : Relationship) : Bool :=
  !r.implied && g.isStatic r.source && g.isStatic r.destination

/-- The graph with the relationships that `r` implies. -/
def implyAll (g : Graph) (r : Relationship) : Except Failure Graph :=
  if g.isImplying r then (g.impliedPairs r).foldlM (imply r) g else .ok g

/-- The graph with all implied relationships of those it has. -/
def withImplied (g : Graph) : Except Failure Graph := g.relationships.foldlM implyAll g

end Graph

end SystemAtlas.Model
