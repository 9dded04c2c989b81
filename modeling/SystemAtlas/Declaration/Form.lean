import SystemAtlas.Declaration.Value

/-! # Forms

A form is read from the fields of an object: some fields must be there, others have a default, and
no further ones are allowed. Where objects of several kinds may stand, the field `kind` says which
form one has.
-/

namespace SystemAtlas.Declaration

open Checked
open Json (Fields)

/-- A field that must be there. -/
def required (fields : Fields) (key : Text) (read : Json → Checked α) : Checked α :=
  (((Json.find? fields key).elim (fault .missing) read)).under key

/-- A field that has a default. -/
def field (fields : Fields) (key : Text) (default : α) (read : Json → Checked α) : Checked α :=
  match Json.find? fields key with
  | some j => (read j).under key
  | none => ok default

/-- The refusal of every field whose key is not known. -/
def noOthers (known : List Text) : Fields → Checked Unit
  | [] => ok ()
  | (k, _) :: rest =>
    if known.contains k then noOthers known rest
    else (fun _ _ => ()) <$> (fault .notAllowed : Checked Unit).under k <*> noOthers known rest

/-- What is read of fields with the known keys, if there are no others. A key with half of a
surrogate pair cannot be compared with the known ones, and is then the only fault. -/
def closed (known : List Text) (fields : Fields) (read : Checked α) : Checked α :=
  if fields.all (·.1.isWhole) then read <* noOthers known fields
  else
    match read with
    | stopped type => stopped type
    | _ => fault .notUnicode

/-- An object of the form with the given name. -/
def form (name : Text) (read : Fields → Checked α) : Json → Checked α
  | .object fields => read fields
  | _ => fault (.notForm name)

/-- An object of the form that its kind chooses. The kind is a step on the way to a fault. -/
def kinded (fields : Fields) (forms : List (Text × (Unit → Checked α))) : Checked α :=
  let unknown shown := fault (.unknownKind shown (forms.map (·.1)))
  match Json.find? fields "kind" with
  | none => fault .noKind
  | some (.string kind) =>
    match forms.lookup kind with
    | some read => (read ()).under kind
    | none => unknown kind
  | some j => unknown j.plain

end SystemAtlas.Declaration
