import SystemAtlas.Proofs.View.Revealing

/-! # Resumed animations

An animation knows what its steps have revealed and shown, and another one that is resumed from the
same view reads both off the recorded steps. If the relationships of the view can be looked up, a
call leaves nothing behind but these steps (`Animation.attempt_resume`). So it changes neither an
answer nor the steps if the animation is dropped and resumed between calls, wherever and however
often (`Animation.play_of_renewed`). -/

namespace SystemAtlas

open Model (Graph)

/-- The relationships of a view can be looked up. -/
def View.Known (g : Graph) (v : View) : Prop :=
  ∀ id ∈ v.relationships, ∃ r, g.getRelationship id = .ok r

theorem View.Sound.known {g : Graph} {v : View} (hv : v.Sound g) (hg : g.Numbered) :
    v.Known g := by
  intro id hid
  obtain ⟨r, hr, -⟩ := Graph.joins_iff.mp ((hv.mem_relationships_iff hg).mp hid)
  exact ⟨r, hr⟩

namespace Animation

/-- What happens to an animation: it is asked to reveal elements, or it is dropped and another one
resumed from the steps that its view has by then. -/
inductive Turn where
  | reveal (elements : List Text)
  | renew

/-- Whether an animation is asked for something. -/
def Turn.isCall : Turn → Bool
  | reveal _ => true
  | renew => false

/-- The answer to a call: the step, or why there is none. -/
def answer (g : Graph) (a : Animation) (elements : List Text) : Except Failure View.Step :=
  (·.1) <$> a.addStep g elements

/-- The answers to the calls among some turns, and the animation after them. -/
def play (g : Graph) (a : Animation) : List Turn → List (Except Failure View.Step) × Animation
  | [] => ([], a)
  | .reveal elements :: turns =>
    let (answers, b) := play g (a.attempt g elements) turns
    (a.answer g elements :: answers, b)
  | .renew :: turns => play g (resume a.view) turns

variable {g : Graph} {v : View}

/-- After a call, an animation knows no more than what the steps of its view say. -/
theorem attempt_resume (hv : v.Known g) (elements : List Text) :
    ∃ steps, (resume v).attempt g elements = resume { v with animation := steps } := by
  rw [attempt, addStep]
  cases (resume v).obstacle? (distinct elements) with
  | some cause => exact ⟨v.animation, rfl⟩
  | none =>
    rw [appearing_eq (a := resume v) hv]
    exact ⟨_, (resume_append v _ _).symm⟩

/-- Turns come to the same as the calls among them. -/
theorem play_renewed (hv : v.Known g) (turns : List Turn) :
    play g (resume v) turns = play g (resume v) (turns.filter Turn.isCall) := by
  induction turns generalizing v with
  | nil => rfl
  | cons turn turns ih =>
    cases turn with
    | renew => exact ih hv
    | reveal elements =>
      obtain ⟨steps, hsteps⟩ := attempt_resume hv elements
      have hrest := @ih { v with animation := steps } hv
      rw [List.filter_cons_of_pos rfl, play, play, hsteps, hrest]

/-- An animation of a view of a complete model, with any steps so far, goes on alike if it is
dropped and resumed between calls: each call has the same answer, be it a step or a failure, and the
steps of the view are the same in the end. -/
theorem play_of_renewed {mode : Identifier.Mode} {members : List Declaration.ModelMember}
    {m : Model.Finished} {c d : Catalogue} {r : View.Request}
    (h : Model.assemble mode members = .ok m) (hc : c.model = m) (hv : c.define r = .ok (v, d))
    (steps : List View.Step) (turns : List Turn) :
    let a := resume { v with animation := steps }
    a.play m.graph turns = a.play m.graph (turns.filter Turn.isCall) := by
  subst hc
  have hg := Model.numbered_of_assemble h
  have hsound := (Catalogue.sound_of_define (Model.wellTyped_of_assemble h) hg hv).1
  have hknown : View.Known c.model.graph { v with animation := steps } := hsound.known hg
  exact play_renewed hknown turns

/-- The calls on the view of the shop, with an animation resumed before each of them. -/
def renewedCalls : List Turn := shopCalls.flatMap fun elements => [.renew, .reveal elements]

theorem shop_renewed : Model.assemble .flat Model.shop = .ok Model.shopModel ∧
    let a := resume shopView
    a.play Model.shopModel.graph renewedCalls =
        a.play Model.shopModel.graph (shopCalls.map .reveal) ∧
      ((a.play Model.shopModel.graph renewedCalls).1.map Except.toOption =
        [some ⟨1, ["customer"], []⟩, none, none, some ⟨2, ["web"], ["r6"]⟩, none,
          some ⟨3, ["books"], ["r5"]⟩]) ∧
      (a.play Model.shopModel.graph renewedCalls).2.view.animation =
        [⟨1, ["customer"], []⟩, ⟨2, ["web"], ["r6"]⟩, ⟨3, ["books"], ["r5"]⟩] := by
  have h : Model.assemble .flat Model.shop = .ok Model.shopModel := by rfl
  have hv : Catalogue.define { model := Model.shopModel } shopRequest =
      .ok ((Catalogue.define { model := Model.shopModel } shopRequest).toOption.getD default) :=
    eq_ok_of_isOk (by decide +kernel)
  refine ⟨h, ?_, ?_, ?_⟩
  · exact play_of_renewed h rfl hv [] renewedCalls
  · decide +kernel
  · decide +kernel

end Animation

end SystemAtlas
