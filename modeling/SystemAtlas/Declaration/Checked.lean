import SystemAtlas.Declaration.Fault
import SystemAtlas.Json.Basic

/-! # Checked values

Checking a document gives a value or the faults found, in the order in which the document is gone
through. Checks that stand side by side are all made, so that every fault is found. A value that is
gone through item by item although it has no items stops the check of the whole document.
-/

namespace SystemAtlas.Declaration

/-- The outcome of checking something. -/
inductive Checked (α : Type) where
  | ok (value : α)
  | faulty (faults : List Fault)
  /-- A value without items stopped the check; its type is named. -/
  | stopped (type : Text)
  deriving DecidableEq, Inhabited

namespace Checked

/-- Both outcomes with their values put together. Of faults all are kept. -/
def seq (f : Checked (α → β)) (x : Checked α) : Checked β :=
  match f, x with
  | stopped type, _ | ok _, stopped type | faulty _, stopped type => stopped type
  | ok f, ok x => ok (f x)
  | ok _, faulty faults | faulty faults, ok _ => faulty faults
  | faulty faults, faulty more => faulty (faults ++ more)

/-- The outcome with its value changed. -/
def map (f : α → β) : Checked α → Checked β
  | ok x => ok (f x)
  | faulty faults => faulty faults
  | stopped type => stopped type

instance : Applicative Checked where
  pure := ok
  map := map
  seq f x := f.seq (x ())

/-- One fault here. -/
def fault (problem : Problem) : Checked α := faulty [⟨[], problem⟩]

/-- The outcome for something inside a value; `step` leads there. -/
def under (step : Text) : Checked α → Checked α
  | faulty faults => faulty (faults.map fun f => { f with place := step :: f.place })
  | outcome => outcome

/-- The outcome after another check of the value. -/
def andThen (x : Checked α) (check : α → Except Problem β) : Checked β :=
  match x with
  | ok x =>
    match check x with
    | .ok y => ok y
    | .error problem => fault problem
  | faulty faults => faulty faults
  | stopped type => stopped type

/-- The outcome with a condition on the value that must hold. -/
def ensure (x : Checked α) (holds : α → Bool) (problem : α → Problem) : Checked α :=
  x.andThen fun x => if holds x then .ok x else .error (problem x)

end Checked

end SystemAtlas.Declaration
