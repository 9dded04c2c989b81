import SystemAtlas.Style.Color
import SystemAtlas.Style.Shape

/-! # Style rules

A rule sets visual properties of the elements, or of the relationships, that carry its tag.
`Rule.ofFields` makes a rule of what a document or a theme says; what it does not know or finds null
is left out, so that it never hides what an earlier rule says.
-/

namespace SystemAtlas.Style

/-- The visual properties. -/
inductive Property where
  | shape
  | background
  | color
  | stroke
  | border
  | icon
  | width
  | height
  | fontSize
  | opacity
  | metadata
  | description
  | thickness
  | dashed
  | routing
  deriving DecidableEq, Inhabited

namespace Property

/-- Every property. -/
def all : List Property :=
  [shape, background, color, stroke, border, icon, width, height, fontSize, opacity, metadata,
    description, thickness, dashed, routing]

/-- The name of a property. -/
def name : Property → Text
  | shape => "shape"
  | background => "background"
  | color => "color"
  | stroke => "stroke"
  | border => "border"
  | icon => "icon"
  | width => "width"
  | height => "height"
  | fontSize => "font_size"
  | opacity => "opacity"
  | metadata => "metadata"
  | description => "description"
  | thickness => "thickness"
  | dashed => "dashed"
  | routing => "routing"

/-- The property that a key means. Themes have keys of their own for two of them. -/
def ofKey? (key : Text) : Option Property :=
  if key == "fontSize" then some fontSize
  else if key == "strokeWidth" then some thickness
  else all.find? (·.name == key)

end Property

/-- What a rule applies to. -/
inductive Target where
  | element
  | relationship
  deriving DecidableEq, Inhabited

namespace Target

/-- The name of a target. -/
def name : Target → Text
  | element => "element"
  | relationship => "relationship"

/-- The target with the given name. -/
def ofName? (s : Text) : Option Target := [element, relationship].find? (·.name == s)

/-- The properties that a target has. -/
def properties : Target → List Property
  | element =>
    [.shape, .background, .color, .stroke, .border, .icon, .width, .height, .fontSize, .opacity,
      .metadata, .description]
  | relationship => [.thickness, .color, .dashed, .routing, .fontSize, .width, .opacity]

/-- The property of a target that a key means. -/
def property? (t : Target) (key : Text) : Option Property :=
  (Property.ofKey? key).filter t.properties.contains

end Target

/-- Values of properties, each property at most once. -/
abbrev Appearance := List (Property × Json)

namespace Appearance

/-- The value of a property. -/
def value? (s : Appearance) (p : Property) : Option Json := (s.find? (·.1 == p)).map (·.2)

/-- An appearance in which a property has the given value: it keeps its place, and a new one goes
last. -/
def set (s : Appearance) (p : Property) (value : Json) : Appearance :=
  match s with
  | [] => [(p, value)]
  | (q, v) :: rest => if q = p then (q, value) :: rest else (q, v) :: set rest p value

/-- An appearance with all values of another over its own. -/
def update (s other : Appearance) : Appearance := other.foldl (fun s x => s.set x.1 x.2) s

/-- An appearance as a value. -/
def toJson (s : Appearance) : Json := .object (s.map fun x => (x.1.name, x.2))

end Appearance

/-- A rule: the tag it selects by, what it applies to, the properties it sets and where it comes
from. -/
structure Rule where
  selector : Text
  target : Target
  appearance : Appearance
  source : Option Text
  deriving Inhabited

namespace Rule

/-- The form in which a value of a property is kept. -/
def normalise (p : Property) (value : Json) : Except Fault Json :=
  match p with
  | .shape => (fun s => .string s.name) <$> Shape.ofJson value
  | .background | .color | .stroke => .string <$> Color.ofJson value
  | .border | .routing =>
    match value with
    | .string s => .ok (.string s.lower)
    | j => .error (.notText p.name j.inline)
  | _ => .ok value

/-- An appearance with one more field read. -/
def readField (target : Target) (s : Appearance) (field : Text × Json) :
    Except Fault Appearance :=
  match target.property? field.1, field.2 with
  | none, _ | _, .null => .ok s
  | some p, value => s.set p <$> normalise p value

/-- The rule that fields spell. Its tag must be a text that is not empty. -/
def ofFields (target : Target) (source : Option Text) (fields : Json.Fields) :
    Except Fault Rule :=
  match Json.find? fields "tag" with
  | some (.string selector) =>
    if selector == "" then .error .noSelector
    else do
      let appearance ← fields.foldlM (readField target) []
      return { selector, target, source, appearance }
  | _ => .error .noSelector

/-- Whether a rule selects what carries the given tags. -/
def selects (r : Rule) (tags : List Text) : Bool := tags.contains r.selector

/-- A rule as a value. -/
def toJson (r : Rule) : Json :=
  .object
    [("selector", .string r.selector), ("target", .string r.target.name),
      ("properties", r.appearance.toJson), ("source", .ofText? r.source)]

end Rule

end SystemAtlas.Style
