import SystemAtlas.Model.Graph
import SystemAtlas.View.Kind

/-! # What a view is of

The focus of a view is its kind with the subject and the environment that the kind needs. It decides
which elements the view can show at all, and which it shows by itself:

* the context of a system: the system, and the people and systems directly connected to it;
* the containers of a system, and the people, systems and other containers connected to them;
* the components of a container, and the people, systems and containers connected to them;
* a deployment: the nodes and instances of an environment, or of those what one system needs.
-/

namespace SystemAtlas

open Model (Element Environment Graph)

/-- What a view is of. -/
inductive Focus where
  | context (system : Element)
  | containers (system : Element)
  | components (container : Element)
  | deployment (system : Option Element) (environment : Environment)
  deriving DecidableEq, Inhabited

namespace Focus

/-- The kind of view with a focus. -/
def kind : Focus → ViewKind
  | context _ => .systemContext
  | containers _ => .container
  | components _ => .component
  | deployment .. => .deployment

/-- The subject of a focus. -/
def subject : Focus → Option Element
  | context e | containers e | components e => some e
  | deployment e _ => e

/-- The environment of a focus. -/
def environment : Focus → Option Environment
  | deployment _ env => some env
  | _ => none

/-- Whether an element is a person or a system. -/
def isOutline (e : Element) : Bool := e.isA .person || e.isA .softwareSystem

/-- Whether a view with a focus can show an element. -/
def admits (f : Focus) (e : Element) : Bool :=
  match f with
  | context _ => isOutline e
  | containers system => (isOutline e || e.isA .container) && e.id != system.id
  | components container =>
    ((isOutline e || e.isA .container) && e.id != container.id) ||
      (e.isA .component && e.parent == some container.id)
  | deployment _ env => e.environment? == some env.id && !e.isGroup

/-- The elements that a view with a focus can show. -/
def members (f : Focus) (g : Graph) : List Element := g.elements.filter f.admits

/-- The ids of the elements that a view with a focus can show. -/
def reach (f : Focus) (g : Graph) : List Text := (f.members g).map (·.id)

/-- The ids that a view of static structure is built around. -/
def core (f : Focus) (g : Graph) : List Text :=
  match f with
  | context system => [system.id]
  | containers system => ((g.children (some system.id)).filter (·.isA .container)).map (·.id)
  | components container => ((g.children (some container.id)).filter (·.isA .component)).map (·.id)
  | deployment .. => []

/-- Ids with those in reach that are directly connected to them. -/
def withNeighbours (g : Graph) (reach core : List Text) : List Text :=
  (core.flatMap fun id => (g.neighbours id).filter reach.contains).foldl addNew core

/-- Whether an instance is one of a system or of something in it. -/
def isInstanceOf (g : Graph) (system : Element) (e : Element) : Bool :=
  e.definition?.any fun d => d == system.id || g.isAncestor system.id d

/-- Whether a deployment of a system needs an element for its own sake. -/
def isNeeded (g : Graph) (system : Element) (e : Element) : Bool :=
  e.isA .infrastructureNode || isInstanceOf g system e

/-- The elements that a deployment of a system shows: those it needs, and their hosts. -/
def deployed (g : Graph) (system : Element) (members : List Element) : List Element :=
  let needed := (members.filter (isNeeded g system)).map (·.id)
  let hosts := needed.flatMap fun id => (g.ancestors id).map (·.id)
  members.filter fun e => needed.contains e.id || hosts.contains e.id

/-- The ids of the elements that a view with a focus shows by itself. -/
def shown (f : Focus) (g : Graph) : List Text :=
  match f with
  | deployment none _ => f.reach g
  | deployment (some system) _ => (deployed g system (f.members g)).map (·.id)
  | _ => withNeighbours g (f.reach g) (f.core g)

end Focus

end SystemAtlas
