import SystemAtlas.Json.Basic
import SystemAtlas.Layout.Layers
import SystemAtlas.Number.Shortest

/-! # Layout strategies

A strategy turns a diagram into cells: every id with its rank, its place within the rank and a
position. The layered strategies put the layers one after the other in one of four directions. The
grid fills rows of equal length, and the circle puts all ids at equal angles. The circle is measured
in floating point, so it has no cells where a distance is too large for that.
-/

namespace SystemAtlas.Layout

/-- How a view is laid out: the name of a strategy, and the distances between ranks and between
neighbours within a rank. -/
structure Directive where
  strategy : Option Text
  rankSeparation : Int
  nodeSeparation : Int
  deriving DecidableEq, Inhabited

/-- A directive as a value. -/
def Directive.toJson (d : Directive) : Json :=
  .object
    [("strategy", .ofText? d.strategy), ("rank_separation", .int d.rankSeparation),
      ("node_separation", .int d.nodeSeparation)]

/-- The strategies. -/
inductive Strategy where
  | bottomToTop
  | circular
  | grid
  | leftToRight
  | rightToLeft
  | topToBottom
  deriving DecidableEq, Inhabited

namespace Strategy

/-- Every strategy, in the order of the names. -/
def all : List Strategy := [bottomToTop, circular, grid, leftToRight, rightToLeft, topToBottom]

/-- The name of a strategy. -/
def name : Strategy → Text
  | bottomToTop => "bt"
  | circular => "circular"
  | grid => "grid"
  | leftToRight => "lr"
  | rightToLeft => "rl"
  | topToBottom => "tb"

/-- The strategy with the given name. -/
def ofName? (s : Text) : Option Strategy := all.find? (·.name == s)

end Strategy

/-- An id with its rank, its place within the rank, and its position. -/
structure Cell where
  id : Text
  rank : Nat
  order : Nat
  x : Int
  y : Int
  deriving DecidableEq, Inhabited

/-- Layers as cells: ranks follow one another along one axis, backward if `reversed`, and the ids of
a rank along the other. -/
def layeredCells (directive : Directive) (reversed vertical : Bool) (layers : List (List Text)) :
    List Cell :=
  layers.zipIdx.flatMap fun (layer, rank) =>
    layer.zipIdx.map fun (id, order) =>
      let step : Nat := if reversed then layers.length - 1 - rank else rank
      let along := (step : Int) * directive.rankSeparation
      let across := (order : Int) * directive.nodeSeparation
      if vertical then ⟨id, rank, order, across, along⟩ else ⟨id, rank, order, along, across⟩

/-- The least whole number whose square is at least `n`. -/
def squareSide (n : Nat) : Nat :=
  let root := n.sqrt
  if root * root = n then root else root + 1

/-- Ids in rows of equal length. -/
def gridCells (directive : Directive) (ids : List Text) : List Cell :=
  let columns := max 1 (squareSide ids.length)
  ids.zipIdx.map fun (id, index) =>
    let row := index / columns
    let column := index % columns
    ⟨id, row, column, (column : Int) * directive.nodeSeparation,
      (row : Int) * directive.rankSeparation⟩

/-- The ratio of a circle's circumference to its diameter. -/
def pi : Float := 3.141592653589793

/-- The double nearest to a whole number, unless it is too large to be near a finite one. -/
def measure? (i : Int) : Option Float :=
  if i.natAbs < Nat.pow 2 1024 - Nat.pow 2 970 then some (Float.ofInt i) else none

/-- The radius of a circle of `count` ids: the rank separation, or more if the ids need it. A rank
separation that is too large matters only where it would be the radius of some id. -/
def circleRadius? (directive : Directive) (count : Nat) : Option Float := do
  let needed := (← measure? (count * directive.nodeSeparation)) / (2 * pi)
  match measure? directive.rankSeparation with
  | some least => some (if least < needed then needed else least)
  | none => if directive.rankSeparation < 0 || count = 0 then some needed else none

/-- Ids at equal angles on a circle. -/
def circleCells? (directive : Directive) (ids : List Text) : Option (List Cell) :=
  (circleRadius? directive ids.length).map fun radius =>
    ids.zipIdx.map fun (id, index) =>
      let angle := 2 * pi * Float.ofNat index / Float.ofNat ids.length
      ⟨id, 0, index, (Number.round? (radius * angle.cos)).getD 0,
        (Number.round? (radius * angle.sin)).getD 0⟩

/-- The cells of a diagram, unless it cannot be measured. -/
def Strategy.cells? (directive : Directive) (d : Diagram) : Strategy → Option (List Cell)
  | topToBottom => some (layeredCells directive false true d.orderedLayers)
  | bottomToTop => some (layeredCells directive true true d.orderedLayers)
  | leftToRight => some (layeredCells directive false false d.orderedLayers)
  | rightToLeft => some (layeredCells directive true false d.orderedLayers)
  | grid => some (gridCells directive d.nodes)
  | circular => circleCells? directive d.nodes

end SystemAtlas.Layout
