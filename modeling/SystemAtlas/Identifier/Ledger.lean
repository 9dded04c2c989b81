import SystemAtlas.Edit
import SystemAtlas.Identifier.Registry
import SystemAtlas.Table

/-! # Ledgers

A ledger is a registry as it is kept: a table of entries under their ids, and a counter from which
every entry gets its number. Declaring is an edit of it.

The search for a free name tries one candidate after the other until one is free. It may take so
many rounds; `none` stands for a search that is not over then.
-/

namespace SystemAtlas.Identifier

/-- A declaration with its id and its number. -/
structure Entry where
  id : Text
  declared : Declared
  sequence : Nat
  deriving DecidableEq, Inhabited

/-- The entries of a registry under their ids, and the latest number given. -/
structure Ledger where
  mode : Mode
  entries : Table Text Entry := {}
  sequence : Nat := 0
  deriving DecidableEq, Inhabited

namespace Ledger

/-- Whether an id is declared. -/
def contains (l : Ledger) (id : Text) : Bool := l.entries.contains id

/-- The id of a name in a scope. -/
def compose (l : Ledger) (name : Text) (scope : ScopePath) : Text :=
  Declared.id l.mode ⟨scope, name⟩

/-! ## Calls -/

/-- The next number. -/
def nextSequence : Edit Ledger Nat := do
  modify fun l => { l with sequence := l.sequence + 1 }
  return (← get).sequence

/-- The id of a new declaration. The name must be a local name and the id must be new. -/
def declare (name : Text) (scope : ScopePath) : Edit Ledger Text := do
  Edit.refuseIf (fun _ => !isLocalName name) (.of (.invalidName name) scope)
  let id := (← get).compose name scope
  Edit.refuseIf (·.contains id) (.of (.identifierTaken id) scope)
  let sequence ← nextSequence
  modify fun l => { l with entries := l.entries.set id { id, declared := ⟨scope, name⟩, sequence } }
  return id

/-- A name with a number behind it. -/
def numbered (base : Text) (k : Nat) : Text := base ++ "_" ++ toString k

/-- The candidate, if it is not taken, or else the first name numbered from `k` on that is not;
`none` if the search is not over after so many rounds. -/
def search (taken : Text → Bool) (base : Text) : Nat → Text → Nat → Option Text
  | 0, _, _ => none
  | rounds + 1, candidate, k =>
    if taken candidate then search taken base rounds (numbered base k) (k + 1) else some candidate

/-- What declaring under a name made of a display name comes to. There may be no display name. The
search for the name may take a round for every entry and one more; `none` if it is not over then. -/
def allocate (l : Ledger) (displayName : Option Text) (scope : ScopePath) :
    Option (EStateM.Result Failure Ledger Text) :=
  let base := slug (displayName.getD "")
  let taken name := l.contains (l.compose name scope)
  (search taken base (l.entries.values.length + 1) base 2).map fun candidate =>
    (declare candidate scope).run l

/-! ## Questions -/

/-- The entry of an id, or a refusal. -/
def get (l : Ledger) (id : Text) : Except Failure Entry :=
  match l.entries.get? id with
  | some e => .ok e
  | none => .error (.missingKey id)

/-- The number of an id. -/
def sequenceOf (l : Ledger) (id : Text) : Except Failure Nat := (·.sequence) <$> l.get id

/-- The local name of an id. -/
def localName (l : Ledger) (id : Text) : Except Failure Text := (·.declared.localName) <$> l.get id

/-- The scope path of a block that the declaration with the given id opens. -/
def framePath (l : Ledger) (id : Text) : Except Failure ScopePath :=
  (·.declared.path) <$> l.get id

/-- The accepted ids whose path ends with a dotted reference, oldest first. -/
def matching (l : Ledger) (reference : Text) (accept : Text → Bool) : List Text :=
  (l.entries.values.filter fun e =>
    (reference.dotted).isSuffixOf e.declared.path && accept e.id).map (·.id)

/-- The accepted id that a reference means anywhere in the workspace. An id means itself. -/
def lookup (l : Ledger) (reference : Text) (accept : Text → Bool := fun _ => true) :
    Except Failure Text :=
  if l.contains reference && accept reference then .ok reference
  else
    match l.matching reference accept with
    | [] => .error (.of (.undeclared reference))
    | [id] => .ok id
    | ids => .error (.of (.ambiguous reference ids))

/-- The registry that a ledger keeps. -/
def registry (l : Ledger) : Registry := ⟨l.mode, l.entries.values.map (·.declared)⟩

end Ledger

end SystemAtlas.Identifier
