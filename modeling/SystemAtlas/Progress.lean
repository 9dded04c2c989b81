/-! # Progress

Steps that may fail are taken one after the other until one does. The state reached is kept, with
the failure if there was one.
-/

namespace SystemAtlas

/-- The state that steps led to, and the failure that stopped them. -/
structure Progress (ε σ : Type) where
  state : σ
  failure : Option ε := none
  deriving Inhabited

namespace Progress

/-- The progress from a state over a list of steps. -/
def run (step : σ → α → Except ε σ) (state : σ) : List α → Progress ε σ
  | [] => { state }
  | x :: rest =>
    match step state x with
    | .ok state => run step state rest
    | .error e => { state, failure := some e }

/-- The state, if nothing failed. -/
def result (p : Progress ε σ) : Except ε σ :=
  match p.failure with
  | none => .ok p.state
  | some e => .error e

end Progress

end SystemAtlas
