import SystemAtlas.Proofs.Build.Independence
import SystemAtlas.Proofs.Layout.Placement
import SystemAtlas.Proofs.Model.Origin
import SystemAtlas.Proofs.View.Registration

/-! # Payloads without dangling references

Whatever a payload refers to is in it (`closed_of_run`). In its model that holds because everything
refers to what was added before (`Model.closed_of_assemble`), and in its views because rendering
places every element of a view once and looks up what it draws in the model
(`closed_of_renderView`). -/

namespace SystemAtlas

open Model (Element Graph Relationship)

/-! ## Models -/

namespace Model

namespace Graph

variable {g : Graph} {e : Element} {id : Text}

/-- Elements refer to elements before them and live in environments of the graph. Relationships
lead from and to its elements, and were derived from relationships before them. -/
structure Closed (g : Graph) : Prop where
  elements : ∀ before e after, g.elements = before ++ e :: after →
    ∀ id, e.parent = some id ∨ e.definition? = some id ∨ id ∈ e.groups → id ∈ before.map (·.id)
  environments : ∀ e ∈ g.elements, ∀ id, e.environment? = some id → id ∈ g.environments.map (·.id)
  ends : ∀ r ∈ g.relationships, r.source ∈ g.elements.map (·.id) ∧
    r.destination ∈ g.elements.map (·.id)
  origins : g.Chained

theorem Fits.mem_of_definition (h : g.Fits e) (hid : e.definition? = some id) :
    id ∈ g.elements.map (·.id) := by
  cases h with
  | occurrence hr _ _ hq =>
    rw [Element.definition?, hr] at hid
    cases hid
    exact List.mem_map_of_mem hq
  | person hr | system hr | container hr | component hr | group hr | rootNode hr | node hr
  | infrastructure hr =>
    rw [Element.definition?, hr] at hid
    cases hid

theorem Fits.mem_of_mem_groups (h : g.Fits e) (hid : id ∈ e.groups) :
    id ∈ g.elements.map (·.id) := by
  cases h with
  | occurrence hr _ _ _ _ hgroups =>
    rw [Element.groups, hr] at hid
    obtain ⟨y, hy, rfl, -⟩ := hgroups id hid
    exact List.mem_map_of_mem hy
  | person hr | system hr | container hr | component hr | group hr | rootNode hr | node hr
  | infrastructure hr =>
    rw [Element.groups, hr] at hid
    cases hid

end Graph

theorem closed_of_assemble {mode : Identifier.Mode} {members : List Declaration.ModelMember}
    {f : Finished} (h : assemble mode members = .ok f) : f.graph.Closed := by
  obtain ⟨hjoined, b, hkept, -, helements, henvironments⟩ := declared_of_assemble h
  refine ⟨fun before e after hsplit id hid => ?_, fun e he id hid => ?_,
    fun r hr => ⟨(hjoined r hr).1.mem, (hjoined r hr).2.mem⟩, chained_of_assemble h⟩
  · have hfits := hkept.ordered_of_elements_eq helements before e after hsplit
    rcases hid with hid | hid | hid
    · exact hfits.mem_of_parent hid
    · exact hfits.mem_of_definition hid
    · exact hfits.mem_of_mem_groups hid
  · obtain ⟨v, hv, rfl⟩ := hkept.situated_of_elements_eq helements henvironments e he id hid
    exact List.mem_map_of_mem hv

end Model

/-! ## Views -/

/-- What a rendered element says of an element of the model. -/
def RenderedElement.Shows (x : RenderedElement) (e : Element) : Prop :=
  x = { x with
    id := e.id, type := e.type.label, name := e.name, description := e.description
    technology := e.technology, parent := e.parent, tags := e.tags }

/-- What a rendered relationship says of a relationship of the model. -/
def RenderedRelationship.Shows (x : RenderedRelationship) (r : Relationship) : Prop :=
  x = { x with
    id := r.id, source := r.source, destination := r.destination, label := r.label
    technology := r.technology, tags := r.tags, implied := r.implied }

/-- A rendered view shows elements of the model, each once, and relationships of the model between
them. Its subject is an element of the model or everything. An element is grouped under its parent,
if that is shown too, and the steps of the animation name only what the view shows. -/
structure RenderedView.Closed (g : Graph) (v : RenderedView) : Prop where
  distinct : (v.elements.map (·.id)).Nodup
  elements : ∀ x ∈ v.elements, ∃ e ∈ g.elements, x.Shows e
  subject : v.subject = everything ∨ v.subject ∈ g.elements.map (·.id)
  groups : ∀ x ∈ v.elements, ∀ id, x.placement.group = some id →
    x.parent = some id ∧ id ∈ v.elements.map (·.id)
  relationships : ∀ x ∈ v.relationships, ∃ r ∈ g.relationships, x.Shows r ∧
    r.source ∈ v.elements.map (·.id) ∧ r.destination ∈ v.elements.map (·.id)
  steps : ∀ s ∈ v.animation, s.elements ⊆ v.elements.map (·.id) ∧
    s.relationships ⊆ v.relationships.map (·.id)

namespace Build

variable {settings : Settings} {g : Graph} {c : Style.Cascade} {rules : List Style.Rule}
  {v w : View} {r : RenderedView} {x : RenderedElement} {xs : List RenderedElement}
  {p : Layout.Placement} {ps : List Layout.Placement}

theorem shows_of_renderElement (h : renderElement g c rules p = .ok x) :
    ∃ e, g.find? p.element = some e ∧ x.Shows e ∧ x.placement = p ∧
      x.style = c.resolve (some g) rules (.element e) := by
  obtain ⟨e, he, h⟩ := bind_eq_ok_iff.mp h
  cases Except.ok.inj h
  exact ⟨e, Graph.get_eq_ok_iff.mp he, rfl, rfl, rfl⟩

theorem ids_of_renderElements (h : ps.mapM (renderElement g c rules) = .ok xs) :
    xs.map (·.id) = ps.map (·.element) := by
  rw [mapM_eq_ok_iff] at h
  induction h with
  | nil => rfl
  | cons hx _ ih =>
    obtain ⟨e, hfind, hshows, -⟩ := shows_of_renderElement hx
    rw [List.map_cons, List.map_cons, ih, congrArg (·.id) hshows, (Graph.mem_of_find? hfind).2]

theorem ids_nodes (ids : List Text) : (ids.map fun id =>
    (⟨id, (g.find? id).bind (·.parent)⟩ : Layout.Node)).map (·.id) = ids := by
  simp only [List.map_map, Function.comp_def, List.map_id']

/-- The elements of a view are rendered, each once. -/
theorem perm_of_renderView (hv : v.elements.Nodup) (h : renderView g c v = .ok r) :
    (r.elements.map (·.id)).Perm v.elements := by
  simp only [renderView, bind_eq_ok_iff, pure_eq_ok_iff] at h
  obtain ⟨es, hes, rs, -, ps, hps, xs, hxs, rfl⟩ := h
  rw [nodes_of_get hes] at hps
  have hplaced := Layout.perm_of_place ((ids_nodes v.elements).symm ▸ hv) hps
  rwa [ids_nodes, ← ids_of_renderElements hxs] at hplaced

/-- A rendered element shows one of the model, and is grouped under its parent if the view has that
too. -/
theorem shows_of_renderView (hv : v.elements.Nodup) (h : renderView g c v = .ok r) :
    ∀ x ∈ r.elements, ∃ e ∈ g.elements, e.id ∈ v.elements ∧ x.Shows e ∧
      x.placement.group = e.parent.filter v.elements.contains := by
  have hperm := perm_of_renderView hv h
  simp only [renderView, bind_eq_ok_iff, pure_eq_ok_iff] at h
  obtain ⟨es, hes, rs, hrs, ps, hps, xs, hxs, rfl⟩ := h
  rw [nodes_of_get hes] at hps
  intro x hx
  have hmem := hperm.mem_iff.mp (List.mem_map_of_mem hx)
  obtain ⟨p, hp, hpx⟩ := exists_of_forall₂_mem (mapM_eq_ok_iff.mp hxs) hx
  obtain ⟨e, hfind, hshows, rfl, -⟩ := shows_of_renderElement hpx
  obtain ⟨he, hid⟩ := Graph.mem_of_find? hfind
  have hxe : x.id = e.id := congrArg (·.id) hshows
  rw [hxe] at hmem
  refine ⟨e, he, hmem, hshows, ?_⟩
  rw [Layout.group_of_place hps _ hp, Layout.parentOf_map, if_pos (hid ▸ hmem), hfind,
    Option.bind_some]
  refine congrArg (e.parent.filter ·) (funext fun id => ?_)
  rw [Bool.eq_iff_iff, List.any_map, List.any_eq_true, List.contains_iff_mem]
  simp only [Function.comp_apply, beq_iff_eq, exists_eq_right]

/-- The relationships between the elements of a view are rendered. -/
theorem relationships_of_renderView (hn : g.Numbered)
    (hv : v.relationships = (g.relationshipsBetween v.elements).map (·.id))
    (h : renderView g c v = .ok r) :
    r.relationships = (g.relationshipsBetween v.elements).map (renderRelationship g c v.rules) := by
  simp only [renderView, bind_eq_ok_iff, pure_eq_ok_iff] at h
  obtain ⟨es, -, rs, hrs, ps, -, xs, -, rfl⟩ := h
  rw [hv, hn.mapM_relationshipsBetween] at hrs
  cases Except.ok.inj hrs
  rfl

/-- What a view is about is rendered as it is. -/
theorem header_of_renderView (h : renderView g c v = .ok r) :
    r.key = v.key ∧ r.subject = v.subjectText ∧ r.animation = v.animation := by
  simp only [renderView, bind_eq_ok_iff, pure_eq_ok_iff] at h
  obtain ⟨es, -, rs, -, ps, -, xs, -, rfl⟩ := h
  exact ⟨rfl, rfl, rfl⟩

/-- A view that is sound and whose steps stay inside it is closed once it is rendered. -/
theorem closed_of_renderView (hn : g.Numbered) (hv : v.Sound g) (hsteps : v.Enclosed)
    (h : renderView g c v = .ok r) : r.Closed g := by
  have hperm := perm_of_renderView hv.nodup h
  have hrelationships := relationships_of_renderView hn hv.relationships h
  obtain ⟨-, hsubject, hanimation⟩ := header_of_renderView h
  refine ⟨hperm.nodup_iff.mpr hv.nodup, fun x hx => ?_, ?_, fun x hx id hid => ?_, fun x hx => ?_,
    fun s hs => ?_⟩
  · obtain ⟨e, he, -, hshows, -⟩ := shows_of_renderView hv.nodup h x hx
    exact ⟨e, he, hshows⟩
  · obtain ⟨f, hf, -, hfocus, -⟩ := hv.reach
    rw [hsubject, View.subjectText, hfocus]
    cases hs : f.subject with
    | none => exact .inl rfl
    | some e => exact .inr (List.mem_map_of_mem (hf.subject e hs).1)
  · obtain ⟨e, -, -, hshows, hgroup⟩ := shows_of_renderView hv.nodup h x hx
    obtain ⟨hparent, hmem⟩ := Option.filter_eq_some_iff.mp (hgroup.symm.trans hid)
    exact ⟨(congrArg (·.parent) hshows).trans hparent,
      hperm.mem_iff.mpr (List.contains_iff_mem.mp hmem)⟩
  · rw [hrelationships] at hx
    obtain ⟨m, hm, rfl⟩ := List.mem_map.mp hx
    obtain ⟨hm, hends⟩ := List.mem_filter.mp hm
    simp only [Bool.and_eq_true, List.contains_iff_mem] at hends
    exact ⟨m, hm, rfl, hperm.mem_iff.mpr hends.1, hperm.mem_iff.mpr hends.2⟩
  · have hids : r.relationships.map (·.id) = v.relationships := by
      rw [hrelationships, hv.relationships, List.map_map]
      rfl
    rw [hanimation] at hs
    rw [hids]
    exact ⟨List.Subset.trans (hsteps s hs).1 hperm.symm.subset, (hsteps s hs).2⟩

/-! ## Payloads -/

/-- A view that is defined and animated is sound, and its steps stay inside it. -/
theorem sound_of_alone {m : Model.Finished} {declared : Declaration.View}
    (hg : m.graph.WellTyped) (hn : m.graph.Numbered) (h : alone settings m declared = .ok w) :
    w.Sound m.graph ∧ w.Enclosed := by
  obtain ⟨request, -, v, hv, a, ha, rfl⟩ := alone_eq_ok_iff.mp h
  have hsound := (Catalogue.sound_of_define hg hn hv).1
  have hnone : v.animation = [] := by
    obtain ⟨f, -, key, -, -, xs, -, -, rfl, -⟩ := Catalogue.define_eq_ok_iff.mp hv
    rfl
  refine ⟨?_, ?_⟩
  · obtain ⟨steps, hsteps⟩ := view_of_animated ha
    rw [hsteps]
    exact ⟨hsound.nonempty, hsound.nodup, hsound.reach, hsound.subject, hsound.environment,
      hsound.relationships, hsound.once⟩
  · refine foldlM_invariant (P := fun b => b.view.Enclosed) ?_ ?_ ha
    · intro b ids b' _ hb hstep
      obtain ⟨xs, -, hstep⟩ := bind_eq_ok_iff.mp hstep
      obtain ⟨⟨s, b''⟩, hadd, rfl⟩ := map_eq_ok_iff.mp hstep
      exact Animation.enclosed_of_addStep hb hadd
    · intro s hs
      exact absurd (hnone ▸ hs) List.not_mem_nil

end Build

/-- The model of a payload is closed, its views have different keys, and each of them is closed. -/
structure Payload.Closed (p : Payload) : Prop where
  model : p.model.Closed
  keys : (p.views.map (·.key)).Nodup
  views : ∀ v ∈ p.views, v.Closed p.model

namespace Build

variable {settings : Settings} {load : Style.Loader} {asked : Option Text}
  {source : Except Failure Declaration.Workspace} {p : Payload}

/-- No payload has a dangling reference. -/
theorem closed_of_run (h : (run settings load asked source).result = .ok p) : p.Closed := by
  cases source with
  | error e => cases h
  | ok w =>
    obtain ⟨mode, -, d, hd, hp⟩ := ofWorkspace_eq_ok_iff.mp h
    obtain ⟨f, hf, vs, hvs, hkeys, rfl⟩ := catalogue_eq_ok_iff_alone.mp hd
    obtain ⟨-, hp⟩ := finish_eq_ok_iff.mp hp
    obtain ⟨rules, -, rs, hrs, rfl⟩ := payload_eq_ok_iff.mp hp
    have hg := Model.wellTyped_of_assemble hf
    have hn := Model.numbered_of_assemble hf
    obtain ⟨render, hrender, rfl⟩ := exists_map_of_mapM hrs
    refine ⟨Model.closed_of_assemble hf, ?_, fun r hr => ?_⟩
    · have hsame : (vs.map render).map (·.key) = vs.map (·.key) := by
        rw [List.map_map]
        exact List.map_congr_left fun v hv => (header_of_renderView (hrender v hv)).1
      exact hsame ▸ hkeys
    · obtain ⟨v, hv, rfl⟩ := List.mem_map.mp hr
      obtain ⟨declared, -, halone⟩ := exists_of_forall₂_mem (mapM_eq_ok_iff.mp hvs) hv
      obtain ⟨hsound, hsteps⟩ := sound_of_alone hg hn halone
      exact closed_of_renderView hn hsound hsteps (hrender v hv)

/-- The workspace of the shop with an animated view of its containers. -/
def animatedShop : Declaration.Workspace :=
  { shopWorkspace with
    views :=
      { views :=
          [{ kind := .container, subject := "shop", included := [everything]
             animation := [["customer", "web"], ["books"]] },
            { kind := .deployment, subject := everything, environment := some "Live"
              included := [everything] }] } }

/-- The build of this workspace. -/
def animatedShopBuild : Build := run {} (fun _ => .ok []) none (.ok animatedShop)

/-- The payload of this workspace. -/
def animatedShopPayload : Payload := animatedShopBuild.result.toOption.getD default

theorem animated_shop_closed : animatedShopBuild.result = .ok animatedShopPayload ∧
    animatedShopPayload.Closed := by
  have h : animatedShopBuild.result = .ok animatedShopPayload := eq_ok_of_isOk (by cbv)
  exact ⟨h, closed_of_run h⟩

end Build

end SystemAtlas
