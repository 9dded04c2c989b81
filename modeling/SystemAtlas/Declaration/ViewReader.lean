import SystemAtlas.Declaration.Form
import SystemAtlas.Declaration.View

/-! # Reading declarations of views

Colours and shapes are brought into their normal form, and so are the ways to say `everything`. The
layout of a view may be written as its direction alone, and what a view includes as one reference.
A view that is well-formed must also name what its kind needs: an environment or a subject.
-/

namespace SystemAtlas.Declaration

open Checked
open Json (Fields)

/-! ## Styles -/

/-- A shape. -/
def shapeOf (j : Json) : Checked Style.Shape :=
  (text j).andThen fun s => (Style.Shape.ofJson (.string s)).mapError .style

/-- A colour. -/
def colorOf (j : Json) : Checked Text :=
  (text j).andThen fun s => (Style.Color.ofJson (.string s)).mapError .style

/-- A field that may be left out or null. -/
def optionalField (fields : Fields) (key : Text) (read : Json → Checked α) : Checked (Option α) :=
  field fields key none (optional read)

/-- The keys of a style with the given properties. -/
def styleKeys (t : Style.Target) : List Text :=
  "line" :: "tag" :: t.properties.map Style.Property.name

/-- A style for elements. -/
def ElementStyle.ofJson : Json → Checked ElementStyle :=
  form "ElementStyleDecl" fun fields => closed (styleKeys .element) fields <|
    ElementStyle.mk <$> optionalField fields "line" integer <*> required fields "tag" text
      <*> optionalField fields "shape" shapeOf <*> optionalField fields "background" colorOf
      <*> optionalField fields "color" colorOf <*> optionalField fields "stroke" colorOf
      <*> optionalField fields "border" (choice (Style.Border.all.map fun b => (b.name, b)))
      <*> optionalField fields "icon" text <*> optionalField fields "width" integer
      <*> optionalField fields "height" integer <*> optionalField fields "font_size" integer
      <*> optionalField fields "opacity" (integerIn 0 100)
      <*> optionalField fields "metadata" boolean <*> optionalField fields "description" boolean

/-- A style for relationships. -/
def RelationshipStyle.ofJson : Json → Checked RelationshipStyle :=
  form "RelationshipStyleDecl" fun fields => closed (styleKeys .relationship) fields <|
    RelationshipStyle.mk <$> optionalField fields "line" integer <*> required fields "tag" text
      <*> optionalField fields "thickness" integer <*> optionalField fields "color" colorOf
      <*> optionalField fields "dashed" boolean
      <*> optionalField fields "routing" (choice (Style.Routing.all.map fun r => (r.name, r)))
      <*> optionalField fields "font_size" integer <*> optionalField fields "width" integer
      <*> optionalField fields "opacity" (integerIn 0 100)

/-- Styles for elements and relationships. -/
def Styles.ofJson : Json → Checked Styles :=
  form "StylesDecl" fun fields => closed ["line", "elements", "relationships"] fields <|
    Styles.mk <$> optionalField fields "line" integer
      <*> field fields "elements" [] (list ElementStyle.ofJson)
      <*> field fields "relationships" [] (list RelationshipStyle.ofJson)

/-! ## Layouts -/

/-- The directions of a layout by their names. -/
def directions : List (Text × Layout.Strategy) :=
  [.topToBottom, .bottomToTop, .leftToRight, .rightToLeft, .grid, .circular].map
    fun s : Layout.Strategy => (s.name, s)

/-- A layout, in fields. -/
def AutoLayout.ofFields (fields : Fields) : Checked AutoLayout :=
  closed ["line", "direction", "rank_separation", "node_separation"] fields <|
    AutoLayout.mk <$> optionalField fields "line" integer
      <*> field fields "direction" .topToBottom (choice directions)
      <*> optionalField fields "rank_separation" (integerFrom 0)
      <*> optionalField fields "node_separation" (integerFrom 0)

/-- A layout, its direction alone, or true for the default. -/
def AutoLayout.ofJson : Json → Checked AutoLayout
  | .string direction => ofFields [("direction", .string (direction.dropLeading ':'))]
  | .bool true => ofFields []
  | j => form "AutoLayoutDecl" ofFields j

/-! ## Views -/

/-- A reference, or one of two ways to say `everything`. -/
def reference (s : Text) : Text := if s == "*" then everything else s

/-- A reference, or one of three ways to say `everything`. -/
def subjectReference (s : Text) : Text := if s == "all" then everything else reference s

/-- The items that a value is gone through by: those of a list, the keys of an object, or a text as
the only one. -/
def itemsOf (j : Json) : Checked (List Json) :=
  match j with
  | .string s => ok [.string s]
  | .array items => ok items
  | .object fields => ok (fields.map fun f => .string f.1)
  | j => if j.isEmpty then ok [] else stopped j.typeWord

/-- What a view includes. -/
def references (j : Json) : Checked (List Text) :=
  match itemsOf j with
  | ok items => List.map reference <$> texts (.array items)
  | faulty faults => faulty faults
  | stopped type => stopped type

/-- What is missing in a view of its kind. -/
def View.lack? (v : View) : Option Problem :=
  if v.kind = .deployment then
    if (v.environment.getD "").isEmpty then some .needsEnvironment else none
  else if v.subject == everything then some (.needsSubject v.kind.name)
  else none

/-- The keys of a view. -/
def View.keys : List Text :=
  ["line", "kind", "subject", "environment", "key", "title", "description", "include", "exclude",
    "auto_layout", "animation", "styles"]

/-- A view. -/
def View.ofJson (j : Json) : Checked View :=
  (form "ViewDecl" read j).andThen fun v => v.lack?.elim (.ok v) .error
where
  /-- A view, in fields. -/
  read (fields : Fields) : Checked View := closed View.keys fields <|
    View.mk <$> optionalField fields "line" integer
      <*> required fields "kind" (choice (ViewKind.all.map fun k => (k.name, k)))
      <*> required fields "subject" (fun j => subjectReference <$> text j)
      <*> optionalField fields "environment" text <*> optionalField fields "key" text
      <*> field fields "title" "" text <*> field fields "description" "" text
      <*> field fields "include" [] references <*> field fields "exclude" [] texts
      <*> optionalField fields "auto_layout" AutoLayout.ofJson
      <*> field fields "animation" [] (list texts) <*> field fields "styles" {} Styles.ofJson

/-- The views of a workspace. -/
def Views.ofJson : Json → Checked Views :=
  form "ViewsDecl" fun fields => closed ["line", "views", "styles", "themes"] fields <|
    Views.mk <$> optionalField fields "line" integer
      <*> field fields "views" [] (list View.ofJson) <*> field fields "styles" {} Styles.ofJson
      <*> field fields "themes" [] texts

end SystemAtlas.Declaration
