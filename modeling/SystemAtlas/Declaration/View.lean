import SystemAtlas.Declaration.Styles
import SystemAtlas.Layout.Strategy
import SystemAtlas.View.Kind

/-! # Declarations of views -/

namespace SystemAtlas.Declaration

/-- How a view is to be laid out. A distance that is left out is that of the settings. -/
structure AutoLayout where
  line : Option Int := none
  direction : Layout.Strategy := .topToBottom
  rankSeparation : Option Int := none
  nodeSeparation : Option Int := none
  deriving DecidableEq, Inhabited

/-- A view of a model. -/
structure View where
  line : Option Int := none
  kind : ViewKind
  subject : Text
  environment : Option Text := none
  key : Option Text := none
  title : Text := ""
  description : Text := ""
  included : List Text := []
  excluded : List Text := []
  autoLayout : Option AutoLayout := none
  animation : List (List Text) := []
  styles : Styles := {}
  deriving DecidableEq, Inhabited

/-- The views of a workspace, with the styles and themes that all of them share. -/
structure Views where
  line : Option Int := none
  views : List View := []
  styles : Styles := {}
  themes : List Text := []
  deriving DecidableEq, Inhabited

/-- A layout as a value. -/
def AutoLayout.toJson (a : AutoLayout) : Json :=
  .object
    [("line", .ofInt? a.line), ("direction", .string a.direction.name),
      ("rank_separation", .ofInt? a.rankSeparation),
      ("node_separation", .ofInt? a.nodeSeparation)]

/-- A view as a value. -/
def View.toJson (v : View) : Json :=
  .object
    [("line", .ofInt? v.line), ("kind", .string v.kind.name), ("subject", .string v.subject),
      ("environment", .ofText? v.environment), ("key", .ofText? v.key),
      ("title", .string v.title), ("description", .string v.description),
      ("include", .ofTexts v.included), ("exclude", .ofTexts v.excluded),
      ("auto_layout", (v.autoLayout.map AutoLayout.toJson).getD .null),
      ("animation", .array (v.animation.map .ofTexts)), ("styles", v.styles.toJson)]

/-- The views of a workspace as a value. -/
def Views.toJson (v : Views) : Json :=
  .object
    [("line", .ofInt? v.line), ("views", .array (v.views.map View.toJson)),
      ("styles", v.styles.toJson), ("themes", .ofTexts v.themes)]

end SystemAtlas.Declaration
