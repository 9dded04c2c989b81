import SystemAtlas.Model.Graph
import SystemAtlas.View.Basic

/-! # Animating a view

An animation under way appends steps to those of its view. A step must reveal at least one element,
all of the view and none that an earlier step reveals. With it appear the relationships of the view
whose ends are both revealed and which have not appeared before.
-/

namespace SystemAtlas

/-- A view that is being animated, with what its animation has revealed so far. -/
structure Animation where
  view : View
  revealed : List Text
  shown : List Text
  deriving Inhabited

namespace Animation

/-- The animation that goes on from the steps a view has. -/
def resume (v : View) : Animation :=
  { view := v
    revealed := v.animation.flatMap (·.elements)
    shown := v.animation.flatMap (·.relationships) }

/-- The relationships that appear once the given elements are revealed. -/
def appearing (g : Model.Graph) (a : Animation) (revealed : List Text) :
    Except Failure (List Text) :=
  (a.view.relationships.filter (!a.shown.contains ·)).filterM fun id => do
    let r ← g.getRelationship id
    return revealed.contains r.source && revealed.contains r.destination

/-- Why a step cannot reveal the given elements. -/
def obstacle? (a : Animation) (ids : List Text) : Option Cause :=
  let order := a.view.animation.length + 1
  let key := a.view.key
  let outside := ids.filter (!a.view.elements.contains ·)
  let repeated := ids.filter a.revealed.contains
  if ids.isEmpty then some (.emptyStep order key)
  else if !outside.isEmpty then some (.stepOutside order key outside)
  else if !repeated.isEmpty then some (.stepRepeats order key repeated)
  else none

/-- The animation with a step added. -/
def append (a : Animation) (ids relationships : List Text) : View.Step × Animation :=
  let step : View.Step := ⟨a.view.animation.length + 1, ids, relationships⟩
  (step,
    { view := { a.view with animation := a.view.animation ++ [step] }
      revealed := a.revealed ++ ids
      shown := a.shown ++ relationships })

/-- What an animation has revealed and shown can be read off the steps of its view. -/
theorem resume_append (v : View) (ids relationships : List Text) :
    resume ((resume v).append ids relationships).2.view =
      ((resume v).append ids relationships).2 := by
  simp [resume, append]

/-- The animation after a step that reveals the given elements, and the step. -/
def addStep (g : Model.Graph) (a : Animation) (elements : List Text) :
    Except Failure (View.Step × Animation) :=
  let ids := distinct elements
  match a.obstacle? ids with
  | some cause => .error (.of cause [a.view.key])
  | none => a.append ids <$> a.appearing g (a.revealed ++ ids)

end Animation

end SystemAtlas
