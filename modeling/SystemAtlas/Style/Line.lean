import SystemAtlas.Text.Basic

/-! # Lines

How the borders of elements and the lines of relationships are drawn.
-/

namespace SystemAtlas.Style

/-- The borders of elements. -/
inductive Border where
  | solid
  | dashed
  | dotted
  deriving DecidableEq, Inhabited

/-- Every border. -/
def Border.all : List Border := [solid, dashed, dotted]

/-- The name of a border. -/
def Border.name : Border → Text
  | solid => "solid"
  | dashed => "dashed"
  | dotted => "dotted"

/-- The ways of a line from one element to another. -/
inductive Routing where
  | direct
  | orthogonal
  | curved
  deriving DecidableEq, Inhabited

/-- Every routing. -/
def Routing.all : List Routing := [direct, orthogonal, curved]

/-- The name of a routing. -/
def Routing.name : Routing → Text
  | direct => "direct"
  | orthogonal => "orthogonal"
  | curved => "curved"

end SystemAtlas.Style
