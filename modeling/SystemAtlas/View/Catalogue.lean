import SystemAtlas.Edit
import SystemAtlas.Model.Assembly
import SystemAtlas.View.Basic
import SystemAtlas.View.Focus

/-! # The catalogue of views

The views of a model in the order they were defined, under different keys. A view is defined by what
it is of and by references to what it includes and excludes. Whatever it refers to must be in reach
of its focus, and it must show something. In a deployment, an element comes with its hosts and goes
with everything below it. `Catalogue.define` tells what a definition comes to, and
`Catalogue.register` makes it.
-/

namespace SystemAtlas

open Model (Element ElementType Environment Finished)

/-- What a view is to be. -/
structure View.Request where
  kind : ViewKind
  subject : Text
  environment : Option Text := none
  key : Option Text := none
  title : Text := ""
  description : Option Text := some ""
  included : List Text := []
  excluded : List Text := []
  layout : Layout.Directive
  rules : List Style.Rule := []
  deriving Inhabited

/-- A model and the views defined on it. -/
structure Catalogue where
  model : Finished
  views : List View := []
  deriving Inhabited

namespace Catalogue

/-- The keys of the views. -/
def keys (c : Catalogue) : List Text := c.views.map (·.key)

/-- The view with the given key, or a refusal. -/
def get (c : Catalogue) (key : Text) : Except Failure View :=
  match c.views.find? (·.key == key) with
  | some v => .ok v
  | none => .error (.missingKey key)

/-- The catalogue with a view in place of the one with its key. -/
def replace (c : Catalogue) (v : View) : Catalogue :=
  { c with views := c.views.map fun w => if w.key == v.key then v else w }

/-! ## References -/

/-- The accepted element that a reference names. -/
def lookup (c : Catalogue) (reference : Text) (accept : Element → Bool := fun _ => true) :
    Except Failure Element := do
  let accepted id := (c.model.graph.find? id).any accept
  c.model.graph.get (← c.model.registry.lookup reference accepted)

/-- The type of the subject of a kind of view. -/
def subjectType : ViewKind → ElementType
  | .component => .container
  | _ => .softwareSystem

/-- The subject that a reference names. -/
def subject (c : Catalogue) (kind : ViewKind) (reference : Text) : Except Failure Element :=
  (c.lookup reference (·.isA (subjectType kind))).mapError <|
    .onCause fun
      | .undeclared _ => .notSubject kind reference
      | cause => cause

/-- The environment that a reference names. -/
def environment (c : Catalogue) (reference : Option Text) : Except Failure Environment :=
  match c.model.graph.findEnvironment? (reference.getD "") with
  | some e => .ok e
  | none => .error (.of (.environmentMissing reference))

/-- What a view is to be of. -/
def focus (c : Catalogue) (r : View.Request) : Except Failure Focus :=
  match r.kind with
  | .systemContext => .context <$> c.subject r.kind r.subject
  | .container => .containers <$> c.subject r.kind r.subject
  | .component => .components <$> c.subject r.kind r.subject
  | .deployment => do
    let system ←
      if r.subject == everything then pure none else some <$> c.subject r.kind r.subject
    return .deployment system (← c.environment r.environment)

/-! ## Keys and titles -/

/-- The key of a view that has none of its own. -/
def defaultKey : Focus → Text
  | .deployment system env =>
    let name : Text := (system.map (·.name)).getD "All"
    name.unspaced ++ "-" ++ env.name.unspaced ++ "-Deployment"
  | f@(.context e) | f@(.containers e) | f@(.components e) =>
    e.name.unspaced ++ "-" ++ f.kind.label.unspaced

/-- The title of a view that has none of its own. -/
def defaultTitle (g : Model.Graph) : Focus → Text
  | .deployment system env =>
    let name : Text := (system.map (·.name)).getD "All Software Systems"
    "[Deployment] " ++ name ++ " (" ++ env.name ++ ")"
  | .components container =>
    match container.parent.bind g.find? with
    | some system => "[Component] " ++ system.name ++ " - " ++ container.name
    | none => "[Component] " ++ container.name
  | f@(.context e) | f@(.containers e) => "[" ++ f.kind.label ++ "] " ++ e.name

/-! ## What a view shows -/

/-- The element within reach that a reference names. -/
def reachable (c : Catalogue) (f : Focus) (key reference : Text) : Except Failure Element :=
  (c.lookup reference f.admits).mapError fun
    | .build { cause := .undeclared _, .. } => .of (.notReachable reference key) [key]
    | failure => failure

/-- The ids that an included reference brings into a view. -/
def expand (c : Catalogue) (f : Focus) (key reference : Text) : Except Failure (List Text) := do
  if reference == everything then return f.shown c.model.graph
  else
    let e ← c.reachable f key reference
    let hosts := if f.kind = .deployment then (c.model.graph.ancestors e.id).reverse else []
    return hosts.map (·.id) ++ [e.id]

/-- The ids that an excluded reference keeps out of a view. -/
def exclude (c : Catalogue) (f : Focus) (key reference : Text) :
    Except Failure (List Text) := do
  let e ← c.reachable f key reference
  let below := if f.kind = .deployment then c.model.graph.descendants e.id else []
  return e.id :: below.map (·.id)

/-- The ids of the elements of a view. -/
def elements (c : Catalogue) (f : Focus) (key : Text) (included excluded : List Text) :
    Except Failure (List Text) := do
  let inside ← included.mapM (c.expand f key)
  let outside ← excluded.mapM (c.exclude f key)
  return (distinct inside.flatten).filter (!outside.flatten.contains ·)

/-! ## Definition -/

/-- A text, or another one if it is empty. -/
def orDefault (s : Text) (default : Text) : Text := if s == "" then default else s

/-- The view that a request asks for, given what it shows. -/
def view (g : Model.Graph) (r : View.Request) (f : Focus) (key : Text) (elements : List Text) :
    View :=
  { key
    kind := r.kind
    subject := f.subject.map (·.id)
    title := orDefault r.title (defaultTitle g f)
    description := r.description
    environment := f.environment.map (·.id)
    elements
    relationships := (g.relationshipsBetween elements).map (·.id)
    layout := r.layout
    rules := r.rules }

/-- The view that a request asks for, and the catalogue with it. -/
def define (c : Catalogue) (r : View.Request) : Except Failure (View × Catalogue) := do
  let f ← c.focus r
  let key := orDefault (r.key.getD "") (defaultKey f)
  if c.keys.contains key then throw (.of (.viewTaken key))
  else
    let elements ← c.elements f key r.included r.excluded
    if elements.isEmpty then throw (.of (.emptyView key r.subject) [key])
    else
      let v := view c.model.graph r f key elements
      return (v, { c with views := c.views ++ [v] })

/-- Adds the view that a request asks for to the catalogue, step by step. -/
def register (r : View.Request) : Edit Catalogue View := do
  let f ← Edit.ask (·.focus r)
  let key := orDefault (r.key.getD "") (defaultKey f)
  Edit.refuseIf (·.keys.contains key) (.of (.viewTaken key))
  let elements ← Edit.ask (·.elements f key r.included r.excluded)
  Edit.refuseIf (fun _ => elements.isEmpty) (.of (.emptyView key r.subject) [key])
  modifyGet fun c =>
    let v := view c.model.graph r f key elements
    (v, { c with views := c.views ++ [v] })

end Catalogue

end SystemAtlas
