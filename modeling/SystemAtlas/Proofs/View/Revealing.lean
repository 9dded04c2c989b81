import Mathlib.Data.List.Induction
import SystemAtlas.Proofs.View.Animating
import SystemAtlas.Proofs.View.Registration

/-! # When relationships appear

An animation shows a relationship of its view with the step by which both its ends are revealed
(`staged_of_attempts`). It keeps two lists, of what its steps have revealed and shown, and both are
what the recorded steps say (`Going.resumed`); so what a step shows is told by the elements revealed
up to it. Since these only grow, no relationship is shown twice, and all are shown once all elements
are (`View.Staged.nodup_shown`, `View.Staged.perm_shown`). -/

namespace SystemAtlas

open Model (Graph Relationship)

/-- Whether both ends of the relationship with an id are among the given elements. -/
def Model.Graph.joins (g : Graph) (ids : List Text) (id : Text) : Bool :=
  (g.getRelationship id).toOption.any fun r => ids.contains r.source && ids.contains r.destination

namespace View

/-- The elements that steps reveal. -/
def revealed (steps : List Step) : List Text := steps.flatMap (·.elements)

/-- The relationships that steps show. -/
def shown (steps : List Step) : List Text := steps.flatMap (·.relationships)

/-- The steps of a view are numbered from one on. Each reveals something, only elements of the view,
none twice and none of another step. With it appear, in the order of the view, the relationships
whose ends are both revealed by now but not both by the steps before. -/
structure Staged (g : Graph) (v : View) : Prop where
  orders : v.animation.map (·.order) = (List.range v.animation.length).map (· + 1)
  elements : ∀ s ∈ v.animation, s.elements ≠ [] ∧ s.elements.Nodup ∧ s.elements ⊆ v.elements
  disjoint : v.animation.Pairwise fun s t => s.elements.Disjoint t.elements
  relationships : ∀ before s after, v.animation = before ++ s :: after →
    s.relationships = v.relationships.filter fun id =>
      g.joins (revealed (before ++ [s])) id && !g.joins (revealed before) id

end View

namespace Model.Graph

variable {g : Graph} {ids more : List Text} {id : Text} {r : Relationship}

theorem joins_iff : g.joins ids id = true ↔
    ∃ r, g.getRelationship id = .ok r ∧ r.source ∈ ids ∧ r.destination ∈ ids := by
  rw [joins]
  cases g.getRelationship id <;> simp [Except.toOption]

theorem joins_mono (hs : ids ⊆ more) (h : g.joins ids id = true) : g.joins more id = true := by
  obtain ⟨r, hr, hsource, hdestination⟩ := joins_iff.mp h
  exact joins_iff.mpr ⟨r, hr, hs hsource, hs hdestination⟩

end Model.Graph

namespace View

variable {g : Graph} {v : View} {steps more : List Step} {id : Text}

theorem revealed_append : revealed (steps ++ more) = revealed steps ++ revealed more :=
  List.flatMap_append

theorem shown_concat {s : Step} : shown (steps ++ [s]) = shown steps ++ s.relationships := by
  simp [shown]

namespace Staged

/-- Steps at the beginning of an animation have shown what their elements join, nothing twice. -/
theorem shown_spec (hv : v.Staged g) (hn : v.relationships.Nodup) (after : List Step)
    (hsteps : v.animation = steps ++ after) : (shown steps).Nodup ∧
      ∀ id, id ∈ shown steps ↔ id ∈ v.relationships ∧ g.joins (revealed steps) id = true := by
  induction steps using List.reverseRecOn generalizing after with
  | nil =>
    refine ⟨List.nodup_nil, fun id => ⟨fun h => absurd h List.not_mem_nil, fun h => ?_⟩⟩
    obtain ⟨r, -, hsource, -⟩ := Graph.joins_iff.mp h.2
    cases hsource
  | append_singleton steps s ih =>
    rw [List.append_assoc, List.singleton_append] at hsteps
    obtain ⟨hnodup, hmem⟩ := ih _ hsteps
    have hs := hv.relationships steps s after hsteps
    have hmem' : ∀ id, id ∈ s.relationships ↔ id ∈ v.relationships ∧
        g.joins (revealed (steps ++ [s])) id = true ∧ g.joins (revealed steps) id = false := by
      intro id
      rw [hs, List.mem_filter, Bool.and_eq_true, Bool.not_eq_true']
    rw [shown_concat]
    constructor
    · refine List.nodup_append.mpr ⟨hnodup, hs ▸ hn.filter _, fun x hx y hy he => ?_⟩
      have hnew := ((hmem' y).mp hy).2.2
      rw [← he, ((hmem x).mp hx).2] at hnew
      cases hnew
    · intro id
      rw [List.mem_append, hmem, hmem', ← and_or_left]
      refine and_congr_right fun _ => ⟨?_, fun h => ?_⟩
      · rintro (h | h)
        · exact Graph.joins_mono (revealed_append ▸ List.subset_append_left _ _) h
        · exact h.1
      · cases hj : g.joins (revealed steps) id
        · exact .inr ⟨h, rfl⟩
        · exact .inl rfl

theorem mem_shown_iff (hv : v.Staged g) (hn : v.relationships.Nodup) : id ∈ shown v.animation ↔
    id ∈ v.relationships ∧ g.joins (revealed v.animation) id = true :=
  (hv.shown_spec hn [] (List.append_nil _).symm).2 id

/-- No relationship is shown twice. -/
theorem nodup_shown (hv : v.Staged g) (hn : v.relationships.Nodup) : (shown v.animation).Nodup :=
  (hv.shown_spec hn [] (List.append_nil _).symm).1

/-- Once all elements are revealed, all relationships between them are shown. -/
theorem perm_shown (hv : v.Staged g) (hn : v.relationships.Nodup)
    (hends : ∀ id ∈ v.relationships, g.joins v.elements id = true)
    (hall : v.elements ⊆ revealed v.animation) : (shown v.animation).Perm v.relationships := by
  refine (List.perm_ext_iff_of_nodup (hv.nodup_shown hn) hn).mpr fun id => ?_
  rw [hv.mem_shown_iff hn]
  exact and_iff_left_of_imp fun h => Graph.joins_mono hall (hends id h)

/-- A step added to staged ones. -/
theorem concat {s : Step} (hv : v.Staged g) (ho : s.order = v.animation.length + 1)
    (hs : s.elements ≠ [] ∧ s.elements.Nodup ∧ s.elements ⊆ v.elements)
    (hd : ∀ x ∈ s.elements, x ∉ revealed v.animation)
    (hr : s.relationships = v.relationships.filter fun id =>
      g.joins (revealed (v.animation ++ [s])) id && !g.joins (revealed v.animation) id) :
    Staged g { v with animation := v.animation ++ [s] } where
  orders := by
    rw [List.map_append, hv.orders, List.length_append, List.length_singleton, List.range_succ,
      List.map_append, List.map_singleton, List.map_singleton, ho]
  elements t ht := by
    rcases List.mem_append.mp ht with ht | ht
    · exact hv.elements t ht
    · exact List.mem_singleton.mp ht ▸ hs
  disjoint := by
    refine List.pairwise_append.mpr ⟨hv.disjoint, List.pairwise_singleton _ _, ?_⟩
    intro t ht u hu x hxt hxu
    rw [List.mem_singleton.mp hu] at hxu
    exact hd x hxu (List.mem_flatMap.mpr ⟨t, ht, hxt⟩)
  relationships before t after hsplit := by
    rcases cons_of_concat hsplit with ⟨rfl, rfl⟩ | ⟨rest, hrest⟩
    · exact hr
    · exact hv.relationships before t rest hrest

end Staged

/-- A sound view shows what its elements join, and no other relationships. -/
theorem Sound.mem_relationships_iff (hv : v.Sound g) (hg : g.Numbered) :
    id ∈ v.relationships ↔ g.joins v.elements id = true := by
  rw [hv.relationships, Graph.joins_iff]
  simp only [List.mem_map, List.mem_filter, Bool.and_eq_true, List.contains_iff_mem,
    hg.getRelationship_eq_ok_iff]
  grind

end View

namespace Animation

variable {g : Graph} {v : View} {a : Animation} {ids revealed rs : List Text}

theorem appearing_eq (h : ∀ id ∈ a.view.relationships, ∃ r, g.getRelationship id = .ok r) :
    a.appearing g revealed =
      .ok ((a.view.relationships.filter (!a.shown.contains ·)).filter (g.joins revealed)) := by
  refine filterM_eq_ok_of_forall fun id hid => ?_
  obtain ⟨r, hr⟩ := h id (List.mem_of_mem_filter hid)
  rw [Graph.joins, hr]
  rfl

/-- What a call leaves behind. Its elements count as revealed before the relationships between them
are looked up, so they still would if one of these could not be found. -/
def attempt (g : Graph) (a : Animation) (elements : List Text) : Animation :=
  match a.obstacle? (distinct elements), a.addStep g elements with
  | some _, _ => a
  | none, .ok (_, b) => b
  | none, .error _ => { a with revealed := a.revealed ++ distinct elements }

/-- A step can reveal something of a view that no earlier step reveals. -/
def Reveals (a : Animation) (v : View) (ids : List Text) : Prop :=
  ids ≠ [] ∧ ids ⊆ v.elements ∧ ∀ x ∈ ids, x ∉ View.revealed a.view.animation

theorem not_reveals_iff : ¬ a.Reveals v ids ↔
    ids = [] ∨ (∃ x ∈ ids, x ∉ v.elements) ∨
      ∃ x ∈ ids, ∃ s ∈ a.view.animation, x ∈ s.elements := by
  simp only [Reveals, not_and_or, ne_eq, not_not, List.subset_def, not_forall, exists_prop,
    View.revealed, List.mem_flatMap]

/-- An animation of a view that has gone through some steps: it knows what these say, and they are
staged. -/
structure Going (g : Graph) (v : View) (a : Animation) : Prop where
  resumed : a = resume { v with animation := a.view.animation }
  staged : a.view.Staged g

namespace Going

theorem initial (hv : v.animation = []) : Going g v (resume v) where
  resumed := rfl
  staged := by
    refine ⟨?_, ?_, ?_, ?_⟩ <;> simp [resume, hv]

theorem view_eq (ha : a.Going g v) : a.view = { v with animation := a.view.animation } :=
  congrArg view ha.resumed

theorem elements_eq (ha : a.Going g v) : a.view.elements = v.elements := by rw [ha.view_eq]

theorem relationships_eq (ha : a.Going g v) : a.view.relationships = v.relationships := by
  rw [ha.view_eq]

theorem revealed_eq (ha : a.Going g v) : a.revealed = View.revealed a.view.animation :=
  congrArg Animation.revealed ha.resumed

theorem shown_eq (ha : a.Going g v) : a.shown = View.shown a.view.animation :=
  congrArg Animation.shown ha.resumed

section
variable (ha : a.Going g v) (hg : g.Numbered) (hv : v.Sound g)
include ha hg hv

theorem appearing_eq (ids : List Text) : a.appearing g (a.revealed ++ ids) =
    .ok (v.relationships.filter fun id => g.joins (View.revealed a.view.animation ++ ids) id &&
      !g.joins (View.revealed a.view.animation) id) := by
  have hrelationships := ha.relationships_eq
  rw [Animation.appearing_eq, hrelationships, List.filter_filter, ha.revealed_eq, ha.shown_eq]
  · refine congrArg Except.ok (List.filter_congr fun id hid => ?_)
    have hshown : id ∈ View.shown a.view.animation ↔
        g.joins (View.revealed a.view.animation) id = true := by
      rw [ha.staged.mem_shown_iff (hrelationships ▸ hv.once), hrelationships, and_iff_right hid]
    refine congrArg (g.joins _ id && !·) (Bool.eq_iff_iff.mpr ?_)
    rw [List.contains_iff_mem, hshown]
  · intro id hid
    rw [hrelationships, hv.relationships] at hid
    obtain ⟨r, hr, rfl⟩ := List.mem_map.mp hid
    exact ⟨r, hg.getRelationship_eq_ok_iff.mpr ⟨List.mem_of_mem_filter hr, rfl⟩⟩

/-- A step that is added shows what it should. -/
theorem append (hids : ids ≠ []) (hinside : ids ⊆ v.elements) (hnodup : ids.Nodup)
    (hnew : ∀ x ∈ ids, x ∉ View.revealed a.view.animation)
    (hs : a.appearing g (a.revealed ++ ids) = .ok rs) : (a.append ids rs).2.Going g v := by
  have hresumed : a = resume a.view := by
    rw [ha.view_eq]
    exact ha.resumed
  rw [ha.appearing_eq hg hv ids] at hs
  constructor
  · rw [hresumed]
    refine (resume_append a.view ids rs).symm.trans (congrArg resume ?_)
    rw [Animation.append, Animation.resume, ha.view_eq]
  · refine ha.staged.concat rfl ⟨hids, hnodup, ha.elements_eq ▸ hinside⟩ hnew ?_
    rw [View.revealed_append, ha.relationships_eq]
    exact (Except.ok.inj hs).symm.trans (by simp [View.revealed])

/-- A call adds a step and keeps the animation going, or it is refused for its elements and leaves
nothing behind. -/
theorem attempt_cases (ids : List Text) :
    (∃ failure, a.addStep g ids = .error failure ∧ a.attempt g ids = a ∧
      ¬ a.Reveals v ids) ∨
    ∃ s b, a.addStep g ids = .ok (s, b) ∧ a.attempt g ids = b ∧ s.elements = distinct ids ∧
      b.view.animation = a.view.animation ++ [s] ∧ a.Reveals v ids ∧ b.Going g v := by
  have hreveals : a.obstacle? (distinct ids) = none ↔ a.Reveals v ids := by
    rw [obstacle?_eq_none_iff, ha.elements_eq, ha.revealed_eq, Reveals, ne_eq, distinct_eq_nil]
    simp only [List.subset_def, mem_distinct]
  rw [attempt, addStep]
  cases ho : a.obstacle? (distinct ids) with
  | some cause =>
    refine .inl ⟨_, rfl, rfl, fun h => ?_⟩
    cases ho.symm.trans (hreveals.mpr h)
  | none =>
    have h := hreveals.mp ho
    have hs := ha.appearing_eq hg hv (distinct ids)
    rw [hs]
    refine .inr ⟨_, _, rfl, rfl, rfl, rfl, h, ?_⟩
    refine ha.append hg hv ?_ ?_ (nodup_distinct ids) ?_ hs
    · exact mt distinct_eq_nil.mp h.1
    · exact fun x hx => h.2.1 (mem_distinct.mp hx)
    · exact fun x hx => h.2.2 x (mem_distinct.mp hx)

/-- Whatever is attempted, the animation keeps going. -/
theorem attempts (calls : List (List Text)) : (calls.foldl (attempt g) a).Going g v := by
  induction calls generalizing a with
  | nil => exact ha
  | cons ids calls ih =>
    refine ih ?_
    obtain ⟨-, -, heq, -⟩ | ⟨-, b, -, heq, -, -, -, hb⟩ := ha.attempt_cases hg hv ids
    · rwa [heq]
    · rwa [heq]

end

end Going

/-- An animation of a view of a complete model, after any calls. It goes on from the steps that the
view has by now, and these are staged. A call fails just if its elements cannot be revealed, and
then leaves the animation as it is. -/
theorem staged_of_attempts {mode : Identifier.Mode} {members : List Declaration.ModelMember}
    {m : Model.Finished} {c d : Catalogue} {r : View.Request}
    (h : Model.assemble mode members = .ok m) (hc : c.model = m) (hv : c.define r = .ok (v, d))
    (calls : List (List Text)) :
    let a := calls.foldl (attempt m.graph) (resume v)
    a = resume { v with animation := a.view.animation } ∧ a.view.Staged m.graph ∧
    (View.shown a.view.animation).Nodup ∧
    (v.elements ⊆ View.revealed a.view.animation →
      (View.shown a.view.animation).Perm v.relationships) ∧
    ∀ ids, ((∃ failure, a.addStep m.graph ids = .error failure) ↔
        ids = [] ∨ (∃ x ∈ ids, x ∉ v.elements) ∨
          ∃ x ∈ ids, ∃ s ∈ a.view.animation, x ∈ s.elements) ∧
      ((∃ failure, a.addStep m.graph ids = .error failure ∧ a.attempt m.graph ids = a) ∨
        ∃ s b, a.addStep m.graph ids = .ok (s, b) ∧ a.attempt m.graph ids = b ∧
          s.elements = distinct ids ∧ b.view.animation = a.view.animation ++ [s]) := by
  subst hc
  have hg := Model.numbered_of_assemble h
  have hsound := (Catalogue.sound_of_define (Model.wellTyped_of_assemble h) hg hv).1
  have hinitial : v.animation = [] := by
    obtain ⟨-, -, -, -, -, -, -, -, rfl, -⟩ := Catalogue.define_eq_ok_iff.mp hv
    rfl
  intro a
  have ha : a.Going c.model.graph v := (Going.initial hinitial).attempts hg hsound calls
  have hrelationships := ha.relationships_eq
  have honce : a.view.relationships.Nodup := hrelationships ▸ hsound.once
  refine ⟨ha.resumed, ha.staged, ha.staged.nodup_shown honce, ?_, ?_⟩
  · intro hall
    refine hrelationships ▸ ha.staged.perm_shown honce ?_ (ha.elements_eq ▸ hall)
    rw [hrelationships, ha.elements_eq]
    exact fun id hid => (hsound.mem_relationships_iff hg).mp hid
  · intro ids
    rw [← not_reveals_iff]
    obtain ⟨failure, hfail, heq, hr⟩ | ⟨s, b, hok, heq, hs, hb, hr, -⟩ :=
      ha.attempt_cases hg hsound ids
    · exact ⟨iff_of_true ⟨failure, hfail⟩ hr, .inl ⟨failure, hfail, heq⟩⟩
    · refine ⟨iff_of_false ?_ (not_not_intro hr), .inr ⟨s, b, hok, heq, hs, hb⟩⟩
      rintro ⟨failure, hfail⟩
      cases hok.symm.trans hfail

/-- A request for a view of all containers of the shop. -/
def shopRequest : View.Request :=
  { kind := .container, subject := "shop", environment := none, included := [everything],
    excluded := [], layout := default }

/-- The view it gives. -/
def shopView : View :=
  ((Catalogue.define { model := Model.shopModel } shopRequest).toOption.getD default).1

/-- Calls on it. The second, third and fifth of them fail: one is empty, one reveals the customer
again, and one wants to reveal what the view does not show. -/
def shopCalls : List (List Text) :=
  [["customer"], [], ["web", "customer"], ["web", "web"], ["ledger"], ["books"]]

theorem shop_staged : Model.assemble .flat Model.shop = .ok Model.shopModel ∧
    shopView.relationships = ["r5", "r6"] ∧
    let a := shopCalls.foldl (attempt Model.shopModel.graph) (resume shopView)
    a.view.animation = [⟨1, ["customer"], []⟩, ⟨2, ["web"], ["r6"]⟩, ⟨3, ["books"], ["r5"]⟩] ∧
      a.view.Staged Model.shopModel.graph ∧
      (View.shown a.view.animation).Perm shopView.relationships := by
  have h : Model.assemble .flat Model.shop = .ok Model.shopModel := by rfl
  have hv : Catalogue.define { model := Model.shopModel } shopRequest =
      .ok ((Catalogue.define { model := Model.shopModel } shopRequest).toOption.getD default) :=
    eq_ok_of_isOk (by decide +kernel)
  obtain ⟨-, hstaged, -, hperm, -⟩ := staged_of_attempts h rfl hv shopCalls
  refine ⟨h, ?_, ?_, hstaged, hperm ?_⟩ <;> decide +kernel

end Animation

end SystemAtlas
