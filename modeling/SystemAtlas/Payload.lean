import SystemAtlas.Identifier.Registry
import SystemAtlas.Layout.Placement
import SystemAtlas.Model.Graph
import SystemAtlas.View.Basic

/-! # Payloads

The payload is what a build hands to whoever draws the views: the model, and every view with all its
elements placed and everything styled.
-/

namespace SystemAtlas

/-- An element of a view, ready to be drawn. -/
structure RenderedElement where
  id : Text
  type : Text
  name : Text
  description : Option Text
  technology : Option Text
  parent : Option Text
  tags : List Text
  placement : Layout.Placement
  style : Style.Appearance
  deriving Inhabited

/-- A relationship of a view, ready to be drawn. -/
structure RenderedRelationship where
  id : Text
  source : Text
  destination : Text
  label : Option Text
  technology : Option Text
  tags : List Text
  implied : Bool
  style : Style.Appearance
  deriving Inhabited

/-- A view, ready to be drawn. -/
structure RenderedView where
  key : Text
  kind : ViewKind
  title : Text
  description : Option Text
  subject : Text
  environment : Option Text
  layout : Layout.Directive
  elements : List RenderedElement
  relationships : List RenderedRelationship
  animation : List View.Step
  deriving Inhabited

/-- What a build makes of a workspace. -/
structure Payload where
  name : Text
  description : Text
  identifiers : Identifier.Mode
  themes : List Text
  model : Model.Graph
  views : List RenderedView
  deriving Inhabited

/-- An element of a view as a value. -/
def RenderedElement.toJson (e : RenderedElement) : Json :=
  .object
    [("id", .string e.id), ("type", .string e.type), ("name", .string e.name),
      ("description", .ofText? e.description), ("technology", .ofText? e.technology),
      ("parent", .ofText? e.parent), ("tags", .ofTexts e.tags),
      ("position", .object e.placement.positionFields), ("style", e.style.toJson)]

/-- A relationship of a view as a value. -/
def RenderedRelationship.toJson (r : RenderedRelationship) : Json :=
  .object
    [("id", .string r.id), ("source", .string r.source), ("destination", .string r.destination),
      ("label", .ofText? r.label), ("technology", .ofText? r.technology),
      ("tags", .ofTexts r.tags), ("implied", .bool r.implied), ("style", r.style.toJson)]

/-- A view as a value. -/
def RenderedView.toJson (v : RenderedView) : Json :=
  .object
    [("key", .string v.key), ("kind", .string v.kind.name), ("title", .string v.title),
      ("description", .ofText? v.description), ("subject", .string v.subject),
      ("environment", .ofText? v.environment), ("layout", v.layout.toJson),
      ("elements", .array (v.elements.map RenderedElement.toJson)),
      ("relationships", .array (v.relationships.map RenderedRelationship.toJson)),
      ("animation", .array (v.animation.map View.Step.toJson))]

namespace Payload

/-- A payload as a value. -/
def toJson (p : Payload) : Json :=
  .object
    [("name", .string p.name), ("description", .string p.description),
      ("identifiers", .string p.identifiers.name), ("themes", .ofTexts p.themes),
      ("model", p.model.toJson), ("views", .array (p.views.map RenderedView.toJson))]

/-- The view with the given key, or a refusal. -/
def view (p : Payload) (key : Text) : Except Failure RenderedView :=
  match p.views.find? (·.key == key) with
  | some v => .ok v
  | none => .error (.missingKey key)

end Payload

end SystemAtlas
