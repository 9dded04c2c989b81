import SystemAtlas.Proofs.Model.Refusal
import SystemAtlas.View.Animation
import SystemAtlas.View.Catalogue

/-! # How defining and animating a view fails

Every reference of a view is looked up, and what is not found is a build error; so is a view or a
step that does not show anything new. Nothing else goes wrong when a view is defined
(`define_failsAs`) or animated (`addStep_failsAs`). -/

namespace SystemAtlas

open Failure (IsBuild isBuild_of)

namespace Catalogue

variable {c : Catalogue} {f : Focus} {key reference : Text} {accept : Model.Element → Bool}

theorem lookup_failsAs : FailsAs IsBuild (c.lookup reference accept) :=
  Identifier.Registry.lookup_failsAs.isBuild.bind fun _ _ => Model.Graph.get_failsAs

theorem subject_failsAs {kind : ViewKind} : FailsAs IsBuild (c.subject kind reference) :=
  lookup_failsAs.mapError fun _ h => h.onBuild

theorem environment_failsAs {reference : Option Text} :
    FailsAs IsBuild (c.environment reference) := by
  rw [environment]
  split
  · exact .ok
  · exact .error (isBuild_of ..)

theorem focus_failsAs (r : View.Request) : FailsAs IsBuild (c.focus r) := by
  have hdeployment : ∀ system,
      FailsAs IsBuild (do return Focus.deployment system (← c.environment r.environment)) :=
    fun _ => environment_failsAs.bind fun _ _ => .ok
  simp only [focus]
  cases r.kind with
  | deployment =>
    dsimp only
    split
    · exact hdeployment none
    · exact subject_failsAs.map.bind fun system _ => hdeployment system
  | _ => exact subject_failsAs.map

theorem reachable_failsAs : FailsAs IsBuild (c.reachable f key reference) := by
  refine lookup_failsAs.mapError fun e h => ?_
  split
  · exact isBuild_of ..
  · exact h

theorem expand_failsAs : FailsAs IsBuild (c.expand f key reference) := by
  rw [expand]
  split
  · exact .ok
  · exact reachable_failsAs.bind fun _ _ => .ok

theorem exclude_failsAs : FailsAs IsBuild (c.exclude f key reference) :=
  reachable_failsAs.bind fun _ _ => .ok

theorem elements_failsAs {included excluded : List Text} :
    FailsAs IsBuild (c.elements f key included excluded) :=
  (FailsAs.mapM fun _ _ => expand_failsAs).bind fun _ _ =>
    (FailsAs.mapM fun _ _ => exclude_failsAs).bind fun _ _ => .ok

theorem define_failsAs (r : View.Request) : FailsAs IsBuild (c.define r) := by
  refine (focus_failsAs r).bind fun f _ => ?_
  dsimp only
  split
  · exact .error (isBuild_of ..)
  · refine elements_failsAs.bind fun xs _ => ?_
    split
    · exact .error (isBuild_of ..)
    · exact .ok

end Catalogue

theorem Animation.addStep_failsAs {g : Model.Graph} {a : Animation} {ids : List Text} :
    FailsAs IsBuild (a.addStep g ids) := by
  rw [addStep]
  split
  · exact .error (isBuild_of ..)
  · exact (FailsAs.filterM fun _ _ =>
      Model.Graph.getRelationship_failsAs.bind fun _ _ => .ok).map

end SystemAtlas
