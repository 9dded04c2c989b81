import SystemAtlas.Error

/-! # Edits

An edit changes a state step by step and gives something, or is refused on the way. What it has
changed before it is refused stays changed, so that only the order of its steps can keep a refused
edit from leaving a trace.
-/

namespace SystemAtlas

/-- What changes a state and gives something, or is refused on the way. -/
abbrev Edit (σ α : Type) := EStateM Failure σ α

namespace Edit

variable {σ α β : Type}

/-- A refusal in the states that have a property. -/
def refuseIf (refused : σ → Bool) (f : Failure) : Edit σ Unit := do
  if refused (← get) then throw f

/-- What a question about the state is answered, or its refusal. -/
def ask (question : σ → Except Failure α) : Edit σ α := do
  match question (← get) with
  | .ok a => return a
  | .error f => throw f

/-- What an edit answers and the state it leaves, whether it is refused or not. -/
def answered : EStateM.Result Failure σ α → Except Failure α × σ
  | .ok a s => (.ok a, s)
  | .error f s => (.error f, s)

/-- The result of an edit that changes the state at once: to the given one, or not at all. -/
def atOnce (s : σ) : Except Failure (α × σ) → EStateM.Result Failure σ α
  | .ok (a, t) => .ok a t
  | .error f => .error f s

theorem atOnce_bind (s : σ) (x : Except Failure α) (next : α → Except Failure (β × σ)) :
    atOnce s (x >>= next) =
      match x with
      | .ok a => atOnce s (next a)
      | .error f => .error f s := by
  cases x <;> rfl

theorem atOnce_ite (s : σ) (refused : Bool) (f : Failure) (x : Except Failure (α × σ)) :
    atOnce s (if refused then throw f else x) = if refused then .error f s else atOnce s x := by
  cases refused <;> rfl

theorem run_refuseIf_bind (refused : σ → Bool) (f : Failure) (next : Unit → Edit σ α) (s : σ) :
    (refuseIf refused f >>= next).run s = if refused s then .error f s else (next ()).run s := by
  cases h : refused s <;> simp [refuseIf, h]

theorem run_get_bind (next : σ → Edit σ α) (s : σ) : (get >>= next).run s = (next s).run s := rfl

theorem run_ask_bind (question : σ → Except Failure α) (next : α → Edit σ β) (s : σ) :
    (ask question >>= next).run s =
      match question s with
      | .ok a => (next a).run s
      | .error f => .error f s := by
  rw [ask, bind_assoc, run_get_bind]
  cases question s with
  | ok a => rfl
  | error f => rfl

theorem run_discard (x : Edit σ α) (s : σ) : (discard x).run s =
    match x.run s with
    | .ok _ s => .ok () s
    | .error f s => .error f s := by
  change EStateM.map _ x s = _
  rw [EStateM.map, EStateM.run]
  cases x s <;> rfl

end Edit

end SystemAtlas
