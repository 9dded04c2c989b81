import SystemAtlas.Model.Graph
import SystemAtlas.Style.Rule

/-! # The style cascade

Rules apply in the order of the cascade: built-in defaults, then every loaded theme in the order of
loading, then the rules of the workspace, then those of the view. For each property the last rule
that selects and sets it wins. A theme is loaded once; asking for it again gives the rules it has.
-/

namespace SystemAtlas.Style

/-- The built-in style of elements. -/
def elementDefaults : Appearance :=
  [(.shape, .string "Box"), (.background, .string "#dddddd"), (.color, .string "#000000"),
    (.stroke, .string "#9a9a9a"), (.border, .string "solid"), (.icon, .null), (.width, .int 450),
    (.height, .int 300), (.fontSize, .int 24), (.opacity, .int 100), (.metadata, .bool true),
    (.description, .bool true)]

/-- The built-in style of relationships. -/
def relationshipDefaults : Appearance :=
  [(.thickness, .int 2), (.color, .string "#707070"), (.dashed, .bool true),
    (.routing, .string "direct"), (.fontSize, .int 24), (.width, .int 200), (.opacity, .int 100)]

/-- The built-in style of a target. -/
def defaults : Target → Appearance
  | .element => elementDefaults
  | .relationship => relationshipDefaults

/-- What can be styled. -/
inductive Styled where
  | element (element : Model.Element)
  | relationship (relationship : Model.Relationship)

namespace Styled

/-- The id of what is styled. -/
def id : Styled → Text
  | element e => e.id
  | relationship r => r.id

/-- What rules must apply to, to apply here. -/
def target : Styled → Target
  | element _ => .element
  | relationship _ => .relationship

/-- The tags that rules select by. An instance also carries the tags of its definition, if the graph
has it. -/
def tags (graph : Option Model.Graph) : Styled → List Text
  | relationship r => r.tags
  | element e =>
    match e.definition?.bind fun d => graph.bind (·.find? d) with
    | some definition => Model.mergeTags [definition.tags, e.tags]
    | none => e.tags

/-- Whether a rule applies. -/
def isStyledBy (s : Styled) (graph : Option Model.Graph) (r : Rule) : Bool :=
  r.target = s.target && r.selects (s.tags graph)

/-- The style that rules give over the built-in one. -/
def style (s : Styled) (graph : Option Model.Graph) (rules : List Rule) : Appearance :=
  (rules.filter (s.isStyledBy graph)).foldl (fun style r => style.update r.appearance)
    (defaults s.target)

end Styled

/-- Loads the rules of a theme. -/
abbrev Loader := Text → Except Failure (List Rule)

/-- The themes loaded so far with their rules, the rules of the workspace, and the themes that the
loader was asked for, all oldest first. -/
structure Cascade where
  themes : List (Text × List Rule) := []
  own : List Rule := []
  requested : List Text := []
  deriving Inhabited

namespace Cascade

/-- The URLs of the loaded themes. -/
def themeUrls (c : Cascade) : List Text := c.themes.map (·.1)

/-- The rules of a loaded theme. -/
def themeRules? (c : Cascade) (url : Text) : Option (List Rule) :=
  (c.themes.find? (·.1 == url)).map (·.2)

/-- The rules of a theme, and the cascade with it loaded. A theme that cannot be loaded is asked for
again the next time. -/
def loadTheme (load : Loader) (c : Cascade) (url : Text) : Except Failure (List Rule) × Cascade :=
  match c.themeRules? url with
  | some rules => (.ok rules, c)
  | none =>
    let c := { c with requested := c.requested ++ [url] }
    match load url with
    | .ok rules => (.ok rules, { c with themes := c.themes ++ [(url, rules)] })
    | .error e => (.error e, c)

/-- The cascade with the themes of a list loaded, up to the first that cannot be. -/
def loadAll (load : Loader) (c : Cascade) : List Text → Option Failure × Cascade
  | [] => (none, c)
  | url :: rest =>
    match c.loadTheme load url with
    | (.ok _, c) => loadAll load c rest
    | (.error e, c) => (some e, c)

/-- The cascade with a rule of the workspace added. -/
def addOwn (c : Cascade) (r : Rule) : Cascade := { c with own := c.own ++ [r] }

/-- The rules in the order they apply, those of a view last. -/
def rules (c : Cascade) (overrides : List Rule := []) : List Rule :=
  c.themes.flatMap (·.2) ++ c.own ++ overrides

/-- The style of one thing. -/
def resolve (c : Cascade) (graph : Option Model.Graph) (overrides : List Rule) (s : Styled) :
    Appearance :=
  s.style graph (c.rules overrides)

/-- The styles of several things by their ids; of two things with one id the last counts. -/
def resolveMany (c : Cascade) (graph : Option Model.Graph) (overrides : List Rule)
    (targets : List Styled) : List (Text × Appearance) :=
  targets.map fun s => (s.id, c.resolve graph overrides s)

end Cascade

end SystemAtlas.Style
