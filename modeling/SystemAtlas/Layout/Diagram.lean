import SystemAtlas.Distinct
import SystemAtlas.Text.Basic

/-! # Diagrams

What a layout depends on: the ids to place and the pairs of different ids that are connected, both
in increasing order and without repetition. Neither the order nor the number of relationships, nor
anything else about them, is left.
-/

namespace SystemAtlas.Layout

/-- A connection from one id to another. -/
abbrev Edge := Text × Text

/-- Increasing order of edges, by source and then by destination. -/
def Edge.le (a b : Edge) : Bool := if a.1 == b.1 then a.2.le b.2 else a.1.le b.1

/-- Ids in increasing order, each once. -/
def sortIds (ids : List Text) : List Text := (distinct ids).mergeSort Text.le

/-- Edges in increasing order, each once. -/
def sortEdges (edges : List Edge) : List Edge := (distinct edges).mergeSort Edge.le

/-- The ids to place and the edges between them. -/
structure Diagram where
  nodes : List Text
  edges : List Edge
  deriving DecidableEq, Inhabited

namespace Diagram

/-- The diagram of the given ids. Edges that leave it or lead back to their source are left out. -/
def of (ids : List Text) (edges : List Edge) : Diagram :=
  { nodes := sortIds ids
    edges := sortEdges <| edges.filter fun e => ids.contains e.1 && ids.contains e.2 && e.1 != e.2 }

/-- The ids that edges from an id lead to, in increasing order. -/
def successors (d : Diagram) (id : Text) : List Text :=
  (d.edges.filter (·.1 == id)).map (·.2)

end Diagram

end SystemAtlas.Layout
