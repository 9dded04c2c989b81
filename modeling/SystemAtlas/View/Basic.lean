import SystemAtlas.Layout.Strategy
import SystemAtlas.Style.Rule
import SystemAtlas.View.Kind

/-! # Views

A view shows some elements of a model, and all relationships between them. Its animation reveals the
elements step by step.
-/

namespace SystemAtlas

/-- One step of an animation: its number from one on, the elements it reveals and the relationships
that become visible with them. -/
structure View.Step where
  order : Nat
  elements : List Text
  relationships : List Text
  deriving DecidableEq, Inhabited

/-- A view of a model. The subject is an element, or nothing if the view is of everything. -/
structure View where
  key : Text
  kind : ViewKind
  subject : Option Text
  title : Text
  description : Option Text
  environment : Option Text
  elements : List Text
  relationships : List Text
  layout : Layout.Directive
  rules : List Style.Rule
  animation : List View.Step := []
  deriving Inhabited

namespace View

/-- A step of an animation as a value. -/
def Step.toJson (s : Step) : Json :=
  .object
    [("order", .int s.order), ("elements", .ofTexts s.elements),
      ("relationships", .ofTexts s.relationships)]

/-- The subject of a view in words. -/
def subjectText (v : View) : Text := v.subject.getD everything

/-- What a view is about, as fields. -/
def header (v : View) : Json.Fields :=
  [("key", .string v.key), ("kind", .string v.kind.name), ("subject", .string v.subjectText),
    ("title", .string v.title), ("description", .ofText? v.description),
    ("environment", .ofText? v.environment), ("layout", v.layout.toJson)]

/-- What a view shows, as fields. -/
def content (v : View) : Json.Fields :=
  [("elements", .ofTexts v.elements), ("relationships", .ofTexts v.relationships)]

/-- A view as a value. -/
def toJson (v : View) : Json := .object (v.header ++ v.content)

end View

end SystemAtlas
