import SystemAtlas.Error
import SystemAtlas.Distinct
import SystemAtlas.Identifier.LocalName
import SystemAtlas.Identifier.Slug

/-! # The identifier registry

A registry records declarations in the order they are made. A declaration has a local name and the
scope path it stands in; in flat mode its id is the local name, in hierarchical mode the whole path
joined by dots. No two declarations have the same id.

`resolve` follows a reference from a scope outward, `lookup` finds one anywhere in the workspace.
-/

namespace SystemAtlas.Identifier

/-- How ids are formed. -/
inductive Mode where
  | flat
  | hierarchical
  deriving DecidableEq, Inhabited

/-- The name of a mode. -/
def Mode.name : Mode → Text
  | flat => "flat"
  | hierarchical => "hierarchical"

/-- The mode with the given name. -/
def Mode.ofName? (s : Text) : Option Mode := [flat, hierarchical].find? (·.name == s)

/-- The mode with the given name, or a refusal. -/
def Mode.ofName (s : Text) : Except Failure Mode :=
  match Mode.ofName? s with
  | some m => .ok m
  | none => .error (.unknownMode s)

/-- The names of the scopes around something, outermost first. -/
abbrev ScopePath := List Text

/-- A declared name and the scope it stands in. -/
structure Declared where
  scope : ScopePath
  localName : Text
  deriving DecidableEq, Inhabited

/-- The path of a declaration: the names of its scopes and its own. -/
def Declared.path (d : Declared) : List Text := d.scope ++ [d.localName]

/-- The id of a declaration. -/
def Declared.id (mode : Mode) (d : Declared) : Text :=
  match mode with
  | .flat => d.localName
  | .hierarchical => Text.intercalate "." d.path

/-- The declarations of a workspace, oldest first. -/
structure Registry where
  mode : Mode
  declared : List Declared := []
  deriving DecidableEq, Inhabited

namespace Registry

/-- The ids of the declarations, oldest first. -/
def ids (r : Registry) : List Text := r.declared.map (·.id r.mode)

/-- Whether an id is declared. -/
def contains (r : Registry) (id : Text) : Bool := r.ids.contains id

/-- The sequence number of the latest declaration. -/
def sequence (r : Registry) : Nat := r.declared.length

/-- The declaration with the given id. -/
def find? (r : Registry) (id : Text) : Option Declared :=
  r.declared.find? (·.id r.mode == id)

/-- The declaration with the given id, or a refusal. -/
def get (r : Registry) (id : Text) : Except Failure Declared :=
  match r.find? id with
  | some d => .ok d
  | none => .error (.missingKey id)

/-- The sequence number of an id: the first declaration has number one. -/
def sequenceOf (r : Registry) (id : Text) : Except Failure Nat :=
  match r.ids.findIdx? (· == id) with
  | some i => .ok (i + 1)
  | none => .error (.missingKey id)

/-- The local name of an id. -/
def localName (r : Registry) (id : Text) : Except Failure Text := (·.localName) <$> r.get id

/-- The scope path of a block that the declaration with the given id opens. -/
def framePath (r : Registry) (id : Text) : Except Failure ScopePath := (·.path) <$> r.get id

/-- The registry with a declaration added, and its id. The name must be a local name and the id must
be new. -/
def declare (r : Registry) (name : Text) (scope : ScopePath) :
    Except Failure (Text × Registry) :=
  if !isLocalName name then .error (.of (.invalidName name) scope)
  else
    let d : Declared := ⟨scope, name⟩
    let id := d.id r.mode
    if r.contains id then .error (.of (.identifierTaken id) scope)
    else .ok (id, { r with declared := r.declared ++ [d] })

/-- The `k`-th candidate for a name: the name itself for one, with a number behind it later. -/
def candidate (base : Text) (k : Nat) : Text :=
  if k ≤ 1 then base else base ++ "_" ++ toString k

/-- The first candidate from the `k`-th on that is not taken, looking at `fuel` of them. -/
def firstFree (taken : Text → Bool) (base : Text) : Nat → Nat → Text
  | 0, k => candidate base k
  | fuel + 1, k =>
    if taken (candidate base k) then firstFree taken base fuel (k + 1) else candidate base k

/-- The registry with a declaration added for a display name, and its id. Of as many candidates as
there are declarations and one more, one is free. -/
def allocate (r : Registry) (displayName : Text) (scope : ScopePath) :
    Except Failure (Text × Registry) :=
  let taken name := r.contains (Declared.id r.mode ⟨scope, name⟩)
  r.declare (firstFree taken (slug displayName) r.sequence 1) scope

/-- The id of the declaration with the given path. In hierarchical mode paths are compared as the
ids they give. -/
def atPath? (r : Registry) (path : List Text) : Option Text :=
  match r.mode with
  | .hierarchical =>
    let id := Text.intercalate "." path
    if r.contains id then some id else none
  | .flat => (r.declared.find? (·.path == path)).map (·.id r.mode)

/-- The outward prefixes of a scope path, the path itself first. -/
def outward (scope : ScopePath) : List ScopePath :=
  (List.range (scope.length + 1)).reverse.map scope.take

/-- The ids a dotted reference may mean in a scope, innermost first. -/
def candidates (r : Registry) (reference : Text) (scope : ScopePath) : List Text :=
  distinct ((outward scope).filterMap fun outer => r.atPath? (outer ++ reference.dotted))

/-- The id that a reference means in a scope. -/
def resolve (r : Registry) (reference : Text) (scope : ScopePath) : Except Failure Text :=
  if reference == "" then .error (.of .emptyReference scope)
  else if r.mode = .flat && r.contains reference then .ok reference
  else
    match r.candidates reference scope with
    | [] => .error (.of (.unresolved reference) scope)
    | [id] => .ok id
    | ids => .error (.of (.ambiguous reference ids) scope)

/-- The accepted ids whose path ends with a dotted reference, oldest first. -/
def matching (r : Registry) (reference : Text) (accept : Text → Bool) : List Text :=
  (r.declared.filter fun d =>
    (reference.dotted).isSuffixOf d.path && accept (d.id r.mode)).map (·.id r.mode)

/-- The accepted id that a reference means anywhere in the workspace. An id means itself. -/
def lookup (r : Registry) (reference : Text) (accept : Text → Bool := fun _ => true) :
    Except Failure Text :=
  if r.contains reference && accept reference then .ok reference
  else
    match r.matching reference accept with
    | [] => .error (.of (.undeclared reference))
    | [id] => .ok id
    | ids => .error (.of (.ambiguous reference ids))

end Registry

end SystemAtlas.Identifier
