import SystemAtlas.Layout.Acyclic

/-! # Layers

The first layer of a diagram without cycles holds the ids that no edge leads to, the next layer the
ids that no edge leads to once the first is taken away, and so on. The number of a layer is the
length of the longest path to each of its ids. Within a layer, ids are ordered by the mean place of
their predecessors; an id without predecessors comes first, and ids with equal means come in
increasing order.
-/

namespace SystemAtlas.Layout

/-- At most `fuel` layers of a diagram. -/
def Diagram.layersUpTo : Nat → Diagram → List (List Text)
  | 0, _ => []
  | fuel + 1, d =>
    if d.nodes.isEmpty then []
    else
      let (later, first) := d.nodes.partition fun n => d.edges.any (·.2 == n)
      first :: layersUpTo fuel ⟨later, d.edges.filter fun e => later.contains e.1⟩

/-- The layers of a diagram without cycles. -/
def Diagram.layers (d : Diagram) : List (List Text) := d.layersUpTo d.nodes.length

/-- A mean of places as a fraction: their sum and their number. -/
structure Mean where
  total : Nat
  count : Nat
  deriving DecidableEq, Inhabited

/-- The mean place of the predecessors of an id, if it has any. -/
def mean? (edges : List Edge) (places : List (Text × Nat)) (id : Text) : Option Mean :=
  let placed := (edges.filter (·.2 == id)).filterMap fun e => places.lookup e.1
  if placed.isEmpty then none else some ⟨placed.foldl (· + ·) 0, placed.length⟩

/-- Increasing order of means; none comes first. -/
def meanLt : Option Mean → Option Mean → Bool
  | _, none => false
  | none, some _ => true
  | some a, some b => a.total * b.count < b.total * a.count

/-- Order within a layer: by mean and then by id. -/
def placeLe (a b : Option Mean × Text) : Bool :=
  meanLt a.1 b.1 || (!meanLt b.1 a.1 && a.2.le b.2)

/-- The ids of a layer in order, given the places in the layers before. -/
def orderLayer (edges : List Edge) (places : List (Text × Nat)) (layer : List Text) :
    List Text :=
  ((layer.map fun id => (mean? edges places id, id)).mergeSort placeLe).map (·.2)

/-- The layers with their ids in order, given the places in the layers before. -/
def orderLayers (edges : List Edge) (places : List (Text × Nat)) :
    List (List Text) → List (List Text)
  | [] => []
  | layer :: rest =>
    let ordered := orderLayer edges places layer
    ordered :: orderLayers edges (places ++ ordered.zipIdx) rest

/-- The layers of a diagram with their ids in order. Edges that close cycles do not count. -/
def Diagram.orderedLayers (d : Diagram) : List (List Text) :=
  orderLayers d.acyclic.edges [] d.acyclic.layers

end SystemAtlas.Layout
