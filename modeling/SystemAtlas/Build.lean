import SystemAtlas.Declaration.Workspace
import SystemAtlas.Payload
import SystemAtlas.Settings
import SystemAtlas.Style.Cascade
import SystemAtlas.View.Animation
import SystemAtlas.View.Catalogue

/-! # Building a workspace

A build makes the payload of a declared workspace. The model is assembled first, then the views are
defined and animated, and then the themes are loaded and everything is placed and styled. The first
failure ends the build, and tells the phase it arose in.
-/

namespace SystemAtlas

open Identifier (Mode)
open Style (Cascade Loader)

/-- What a build gives, and the themes it asked the loader for. -/
structure Build where
  result : Except Failure Payload
  requested : List Text := []

namespace Build

/-- The mode of identifiers: the one asked for, that of the workspace, or that of the settings. -/
def mode (settings : Settings) (asked : Option Text) (declared : Option Mode) :
    Except Failure Mode :=
  match asked.filter (!·.isEmpty), declared with
  | some name, _ => Mode.ofName name
  | none, some mode => .ok mode
  | none, none => Mode.ofName settings.identifiers

/-! ## Views -/

/-- The layout of a view, with distances of the settings where it has none. -/
def directive (settings : Settings) : Option Declaration.AutoLayout → Layout.Directive
  | none =>
    { strategy := Layout.Strategy.grid.name
      rankSeparation := settings.rankSeparation
      nodeSeparation := settings.nodeSeparation }
  | some a =>
    { strategy := a.direction.name
      rankSeparation := a.rankSeparation.getD settings.rankSeparation
      nodeSeparation := a.nodeSeparation.getD settings.nodeSeparation }

/-- Where the rules of a view come from. -/
def ruleSource (d : Declaration.View) : Text :=
  "view:" ++ ((d.key.filter (!·.isEmpty)).getD d.subject)

/-- What a view is declared to be. -/
def request (settings : Settings) (d : Declaration.View) : Except Failure View.Request := do
  let rules ← (d.styles.rules (ruleSource d)).mapError .style
  return { kind := d.kind, subject := d.subject, environment := d.environment, key := d.key
           title := d.title, description := d.description, included := d.included
           excluded := d.excluded, layout := directive settings d.autoLayout, rules }

/-- The id that a reference in a step names: an element of the view if one is meant, and otherwise
any element. -/
def target (c : Catalogue) (v : View) (reference : Text) : Except Failure Text :=
  match c.lookup reference fun e => v.elements.contains e.id with
  | .error (.build { cause := .undeclared _, .. }) => (·.id) <$> c.lookup reference
  | found => (·.id) <$> found

/-- The animation after one more declared step. -/
def animateStep (c : Catalogue) (a : Animation) (references : List Text) :
    Except Failure Animation := do
  let ids ← references.mapM (target c a.view)
  (·.2) <$> a.addStep c.model.graph ids

/-- The catalogue with a declared view defined and animated. -/
def addView (settings : Settings) (c : Catalogue) (d : Declaration.View) :
    Except Failure Catalogue :=
  let after := do
    let (v, c) ← c.define (← request settings d)
    let a ← d.animation.foldlM (animateStep c) (Animation.resume v)
    return c.replace a.view
  after.mapError (·.annotate [] d.line)

/-! ## Rendering -/

/-- An element of a view with its place and style. -/
def renderElement (g : Model.Graph) (c : Cascade) (rules : List Style.Rule) (p : Layout.Placement) :
    Except Failure RenderedElement := do
  let e ← g.get p.element
  return { id := e.id, type := e.type.label, name := e.name, description := e.description
           technology := e.technology, parent := e.parent, tags := e.tags, placement := p
           style := c.resolve (some g) rules (.element e) }

/-- A relationship of a view with its style. -/
def renderRelationship (g : Model.Graph) (c : Cascade) (rules : List Style.Rule)
    (r : Model.Relationship) : RenderedRelationship :=
  { id := r.id, source := r.source, destination := r.destination, label := r.label
    technology := r.technology, tags := r.tags, implied := r.implied
    style := c.resolve (some g) rules (.relationship r) }

/-- A view with everything placed and styled. -/
def renderView (g : Model.Graph) (c : Cascade) (v : View) : Except Failure RenderedView := do
  let elements ← v.elements.mapM g.get
  let relationships ← v.relationships.mapM g.getRelationship
  let nodes := elements.map fun e => ⟨e.id, e.parent⟩
  let edges := relationships.map fun r => (r.source, r.destination)
  let placements ← Layout.place v.layout nodes edges
  return { key := v.key, kind := v.kind, title := v.title, description := v.description
           subject := v.subjectText, environment := v.environment, layout := v.layout
           elements := ← placements.mapM (renderElement g c v.rules)
           relationships := relationships.map (renderRelationship g c v.rules)
           animation := v.animation }

/-- The payload of a workspace whose model and views are complete. The cascade has the themes. -/
def payload (w : Declaration.Workspace) (mode : Mode) (catalogue : Catalogue) (c : Cascade) :
    Except Failure Payload := do
  let rules ← (w.views.styles.rules "local").mapError .style
  let c := rules.foldl Cascade.addOwn c
  return { name := w.name, description := w.description, identifiers := mode
           themes := c.themeUrls, model := catalogue.model.graph
           views := ← catalogue.views.mapM (renderView catalogue.model.graph c) }

/-! ## Phases -/

/-- The catalogue of a workspace: its model assembled and all its views defined. -/
def catalogue (settings : Settings) (mode : Mode) (w : Declaration.Workspace) :
    Except Failure Catalogue := do
  let model ← (Model.assemble mode w.model).mapError (.inPhase .model)
  (w.views.views.foldlM (addView settings) { model }).mapError (.inPhase .views)

/-- The build of a workspace whose model and views are complete. -/
def finish (load : Loader) (w : Declaration.Workspace) (mode : Mode) (catalogue : Catalogue) :
    Build :=
  let (failure, c) := Cascade.loadAll load {} w.views.themes
  let result : Except Failure Payload :=
    match failure with
    | some e => .error e
    | none => payload w mode catalogue c
  { result := result.mapError (.inPhase .styles), requested := c.requested }

/-- The build of a declared workspace. -/
def ofWorkspace (settings : Settings) (load : Loader) (identifiers : Option Text)
    (w : Declaration.Workspace) : Build :=
  let prepared := do
    let mode ← mode settings identifiers w.identifiers
    return (mode, ← catalogue settings mode w)
  match prepared with
  | .ok (mode, catalogue) => finish load w mode catalogue
  | .error e => { result := .error e }

/-- The build of a source. -/
def run (settings : Settings) (load : Loader) (identifiers : Option Text)
    (source : Except Failure Declaration.Workspace) : Build :=
  match source with
  | .ok w => ofWorkspace settings load identifiers w
  | .error e => { result := .error e }

end Build

end SystemAtlas
