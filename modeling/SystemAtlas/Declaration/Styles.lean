import SystemAtlas.Style.Line
import SystemAtlas.Style.Rule

/-! # Declarations of styles

A style is declared for a tag. A property that is left out is not set.
-/

namespace SystemAtlas.Declaration

open Style (Shape Border Routing Property Appearance Rule)

/-- A style for elements. -/
structure ElementStyle where
  line : Option Int := none
  tag : Text
  shape : Option Shape := none
  background : Option Text := none
  color : Option Text := none
  stroke : Option Text := none
  border : Option Border := none
  icon : Option Text := none
  width : Option Int := none
  height : Option Int := none
  fontSize : Option Int := none
  opacity : Option Int := none
  metadata : Option Bool := none
  description : Option Bool := none
  deriving DecidableEq, Inhabited

/-- A style for relationships. -/
structure RelationshipStyle where
  line : Option Int := none
  tag : Text
  thickness : Option Int := none
  color : Option Text := none
  dashed : Option Bool := none
  routing : Option Routing := none
  fontSize : Option Int := none
  width : Option Int := none
  opacity : Option Int := none
  deriving DecidableEq, Inhabited

/-- Styles for elements and for relationships. -/
structure Styles where
  line : Option Int := none
  elements : List ElementStyle := []
  relationships : List RelationshipStyle := []
  deriving DecidableEq, Inhabited

/-- A truth value or null. -/
def boolJson : Option Bool → Json
  | some b => .bool b
  | none => .null

/-- The properties of a style for elements, null where one is left out. -/
def ElementStyle.appearance (s : ElementStyle) : Appearance :=
  [(.shape, .ofText? (s.shape.map (·.name))), (.background, .ofText? s.background),
    (.color, .ofText? s.color), (.stroke, .ofText? s.stroke),
    (.border, .ofText? (s.border.map (·.name))), (.icon, .ofText? s.icon),
    (.width, .ofInt? s.width), (.height, .ofInt? s.height), (.fontSize, .ofInt? s.fontSize),
    (.opacity, .ofInt? s.opacity), (.metadata, boolJson s.metadata),
    (.description, boolJson s.description)]

/-- The properties of a style for relationships, null where one is left out. -/
def RelationshipStyle.appearance (s : RelationshipStyle) : Appearance :=
  [(.thickness, .ofInt? s.thickness), (.color, .ofText? s.color), (.dashed, boolJson s.dashed),
    (.routing, .ofText? (s.routing.map (·.name))), (.fontSize, .ofInt? s.fontSize),
    (.width, .ofInt? s.width), (.opacity, .ofInt? s.opacity)]

/-- The fields by which a style for a tag is written. -/
def styleFields (tag : Text) (a : Appearance) : Json.Fields :=
  ("tag", .string tag) :: a.map fun s => (s.1.name, s.2)

/-- A style for elements as a value. -/
def ElementStyle.toJson (s : ElementStyle) : Json :=
  .object (("line", .ofInt? s.line) :: styleFields s.tag s.appearance)

/-- A style for relationships as a value. -/
def RelationshipStyle.toJson (s : RelationshipStyle) : Json :=
  .object (("line", .ofInt? s.line) :: styleFields s.tag s.appearance)

/-- Styles as a value. -/
def Styles.toJson (s : Styles) : Json :=
  .object
    [("line", .ofInt? s.line), ("elements", .array (s.elements.map ElementStyle.toJson)),
      ("relationships", .array (s.relationships.map RelationshipStyle.toJson))]

/-- The rules that styles spell, those for elements first. -/
def Styles.rules (source : Text) (s : Styles) : Except Style.Fault (List Rule) := do
  let elements ← s.elements.mapM fun e =>
    Rule.ofFields .element source (styleFields e.tag e.appearance)
  let relationships ← s.relationships.mapM fun r =>
    Rule.ofFields .relationship source (styleFields r.tag r.appearance)
  return elements ++ relationships

end SystemAtlas.Declaration
