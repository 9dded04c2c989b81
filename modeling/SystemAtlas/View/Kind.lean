import SystemAtlas.Text.Basic

/-! # Kinds of view

Views come in four kinds. A reference in a view may also be `everything`, which stands for what the
kind shows by itself.
-/

namespace SystemAtlas

/-- The reference that stands for everything a view shows by itself. -/
def everything : Text := ":all"

/-- The kinds of view. Each has its own rule for the elements it may show. -/
inductive ViewKind where
  | systemContext
  | container
  | component
  | deployment
  deriving DecidableEq, Inhabited

namespace ViewKind

/-- Every kind of view. -/
def all : List ViewKind := [systemContext, container, component, deployment]

/-- The name of a kind in documents. -/
def name : ViewKind → Text
  | systemContext => "system_context"
  | container => "container"
  | component => "component"
  | deployment => "deployment"

/-- The name of a kind in titles. -/
def label : ViewKind → Text
  | systemContext => "System Context"
  | container => "Container"
  | component => "Component"
  | deployment => "Deployment"

/-- The type that the subject of a view has. -/
def subjectType : ViewKind → Text
  | component => "Container"
  | _ => "Software System"

/-- The kind with the given name. -/
def ofName? (s : Text) : Option ViewKind := all.find? (·.name == s)

end ViewKind

end SystemAtlas
