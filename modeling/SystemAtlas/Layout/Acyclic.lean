import SystemAtlas.Layout.Diagram

/-! # Breaking cycles

A depth-first walk visits ids and their successors in increasing order and drops every edge that
leads back to an id on the path it stands on. The edges it keeps close no cycle, and an edge is
dropped only if kept edges lead from its end back to its start.
-/

namespace SystemAtlas.Layout

/-- What a walk has found: the ids it is done with and the edges it keeps, both latest first. -/
structure Walk where
  finished : List Text := []
  kept : List Edge := []
  deriving DecidableEq, Inhabited

namespace Walk

/-- The walk from an id that it has not met, along a path of at most `fuel` ids more. `path` holds
the ids on the way to it, latest first. -/
def visit (next : Text → List Text) : Nat → List Text → Walk → Text → Walk
  | 0, _, w, _ => w
  | fuel + 1, path, w, id =>
    let w := (next id).foldl (step fuel (id :: path) id) w
    { w with finished := id :: w.finished }
where
  /-- The walk after the edge from `id` to `child`. -/
  step (fuel : Nat) (path : List Text) (id : Text) (w : Walk) (child : Text) : Walk :=
    if path.contains child then w
    else
      let w := { w with kept := (id, child) :: w.kept }
      if w.finished.contains child then w else visit next fuel path w child

end Walk

/-- The walk over a whole diagram. -/
def Diagram.walk (d : Diagram) : Walk :=
  d.nodes.foldl
    (fun w id =>
      if w.finished.contains id then w else Walk.visit d.successors d.nodes.length [] w id)
    {}

/-- The diagram without the edges that close cycles. -/
def Diagram.acyclic (d : Diagram) : Diagram :=
  { d with edges := d.edges.filter d.walk.kept.contains }

end SystemAtlas.Layout
