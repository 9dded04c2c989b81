import SystemAtlas.Error
import SystemAtlas.Layout.Strategy

/-! # Placements

`Layout.place` lays out the ids of a view by the strategy its directive names. The placements come
by rank and then by order, and an id whose parent is placed too belongs to the group of that parent.
-/

namespace SystemAtlas.Layout

/-- Where an id is placed. -/
structure Placement where
  element : Text
  rank : Nat
  order : Nat
  x : Int
  y : Int
  group : Option Text
  deriving DecidableEq, Inhabited

namespace Placement

/-- The position of a placement as a value. -/
def positionFields (p : Placement) : Json.Fields :=
  [("rank", .int p.rank), ("order", .int p.order), ("x", .int p.x), ("y", .int p.y),
    ("group", .ofText? p.group)]

/-- A placement as a value. -/
def toJson (p : Placement) : Json := .object (("element", .string p.element) :: p.positionFields)

end Placement

/-- An id to place, with its parent. -/
structure Node where
  id : Text
  parent : Option Text := none
  deriving DecidableEq, Inhabited

/-- The parent of the id among the nodes. Of two nodes with one id the last counts. -/
def parentOf (nodes : List Node) (id : Text) : Option Text :=
  (nodes.reverse.find? (·.id == id)).bind (·.parent)

/-- The placement of a cell among the nodes. -/
def Cell.placement (nodes : List Node) (c : Cell) : Placement :=
  { element := c.id
    rank := c.rank
    order := c.order
    x := c.x
    y := c.y
    group := (parentOf nodes c.id).filter fun p => nodes.any (·.id == p) }

/-- The placements of nodes, given what connects them. -/
def place (directive : Directive) (nodes : List Node) (edges : List Edge) :
    Except Failure (List Placement) :=
  match directive.strategy.bind Strategy.ofName? with
  | none => .error (.unknownStrategy directive.strategy)
  | some strategy =>
    match strategy.cells? directive (Diagram.of (nodes.map (·.id)) edges) with
    | some cells => .ok (cells.map (·.placement nodes))
    | none => .error .unmeasurable

end SystemAtlas.Layout
