import SystemAtlas.Model.Implied

/-! # Relationships between instances

A relationship between two definitions, implied ones included, holds between their instances too.
It is copied for every two instances in one environment that share a deployment group or of which
one has no group. A copy with a label that already connects the two instances is left out, unless
the relationship is parallel.
-/

namespace SystemAtlas.Model.Graph

/-- Whether traffic between the definitions of two instances reaches from one to the other. -/
def reaches (source destination : Element) : Bool :=
  source.environment? == destination.environment? && source.sharesGroupWith destination

/-- The pairs of instances that a relationship between their definitions connects. -/
def instancePairs (g : Graph) (r : Relationship) : List (Text × Text) :=
  (g.instancesOf r.source).flatMap fun s =>
    ((g.instancesOf r.destination).filter (reaches s)).map fun d => (s.id, d.id)

/-- The graph with a copy of `r` between two instances. -/
def copyBetween (r : Relationship) (g : Graph) (pair : Text × Text) : Except Failure Graph :=
  if !r.parallel && g.hasRelationship pair.1 pair.2 r.label then .ok g
  else g.addRelationship (r.derive pair.1 pair.2)

/-- The graph with the copies of `r`, if both its ends are static. -/
def copyAll (g : Graph) (r : Relationship) : Except Failure Graph :=
  if g.isStatic r.source && g.isStatic r.destination then
    (g.instancePairs r).foldlM (copyBetween r) g
  else .ok g

/-- The graph with the relationships it has copied to the instances of their ends. -/
def withInstanceRelationships (g : Graph) : Except Failure Graph :=
  g.relationships.foldlM copyAll g

end SystemAtlas.Model.Graph
