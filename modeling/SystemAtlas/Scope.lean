import SystemAtlas.Identifier.Registry

/-! # The scope stack

While declarations are read, a stack of frames tells where the next one stands. The outermost frame
is the workspace and never leaves; every block with members adds a frame. A frame has the scope path
of its block, the element and the environment that own the block, if any, the line the block was
opened on, and the ids declared directly in it.
-/

namespace SystemAtlas

/-- One block of declarations. -/
structure Scope.Frame where
  path : Identifier.ScopePath := []
  element : Option Text := none
  environment : Option Text := none
  line : Option Int := none
  declared : List Text := []
  deriving DecidableEq, Inhabited

/-- The blocks around the next declaration: the open ones, innermost first, and the workspace. -/
structure Scope where
  blocks : List Scope.Frame := []
  workspace : Scope.Frame := {}
  deriving DecidableEq, Inhabited

namespace Scope

/-- The frames, innermost first. -/
def frames (s : Scope) : List Frame := s.blocks ++ [s.workspace]

/-- The innermost frame. -/
def current (s : Scope) : Frame := s.blocks.headD s.workspace

/-- The scope path of the innermost block. -/
def path (s : Scope) : Identifier.ScopePath := s.current.path

/-- The element that owns the innermost block. -/
def element (s : Scope) : Option Text := s.current.element

/-- The environment of the nearest block that has one. -/
def environment (s : Scope) : Option Text := s.frames.findSome? (·.environment)

/-- The line of the nearest block that has one. -/
def line (s : Scope) : Option Int := s.frames.findSome? (·.line)

/-- The scope inside a block. -/
def enter (s : Scope) (frame : Frame) : Scope := { s with blocks := frame :: s.blocks }

/-- The scope around the innermost block. The workspace stays. -/
def leave (s : Scope) : Scope := { s with blocks := s.blocks.tail }

theorem leave_enter (s : Scope) (frame : Frame) : (s.enter frame).leave = s := rfl

/-- The scope with an id recorded as declared in its innermost block. -/
def record (s : Scope) (id : Text) : Scope :=
  match s.blocks with
  | [] => { s with workspace := { s.workspace with declared := s.workspace.declared ++ [id] } }
  | frame :: rest => { s with blocks := { frame with declared := frame.declared ++ [id] } :: rest }

/-- A frame as a value. -/
def Frame.toJson (f : Frame) : Json :=
  .object [("path", .ofTexts f.path), ("element", .ofText? f.element),
    ("environment", .ofText? f.environment), ("declared", .ofTexts f.declared)]

/-- A scope as a value. -/
def toJson (s : Scope) : Json :=
  .object [("depth", .int s.frames.length), ("path", .ofTexts s.path),
    ("element", .ofText? s.element), ("environment", .ofText? s.environment),
    ("chain", .array (s.frames.map Frame.toJson))]

end Scope

end SystemAtlas
