import Mathlib
import SystemAtlas.Build
import SystemAtlas.Proofs.Layout.Ordering
import SystemAtlas.Proofs.View.Alike
import SystemAtlas.Proofs.View.Animating

/-! # Rendering and the order of declarations

A rendered view places and styles the elements of a view. With flat ids it does not depend on the
order in which a model is declared (`elements_of_reordered`): reordered models have graphs that are
alike, the views defined on them show the same elements, and their layout depends on no more than
the connected pairs. -/

namespace SystemAtlas

open Model (Element Graph)

/-! ## Views that are added -/

namespace Build

variable {settings : Settings} {c c' d d' : Catalogue} {declared : Declaration.View}
  {v v' : View} {a : Animation} {references : List (List Text)}

theorem view_of_animated (h : references.foldlM (animateStep c) (.resume v) = .ok a) :
    ∃ steps, a.view = { v with animation := steps } := by
  refine foldlM_invariant (P := fun b => ∃ steps, b.view = { v with animation := steps }) ?_
    ⟨v.animation, rfl⟩ h
  rintro b ids b' - ⟨steps, hb⟩ hstep
  obtain ⟨xs, -, hstep⟩ := bind_eq_ok_iff.mp hstep
  obtain ⟨⟨s, b''⟩, hadd, rfl⟩ := map_eq_ok_iff.mp hstep
  obtain ⟨steps', hview⟩ := Animation.view_of_addStep hadd
  exact ⟨steps', by rw [hview, hb]⟩

theorem addView_eq_ok_iff : addView settings c declared = .ok d ↔
    ∃ r, request settings declared = .ok r ∧ ∃ p, c.define r = .ok p ∧
      ∃ a, declared.animation.foldlM (animateStep p.2) (.resume p.1) = .ok a ∧
        d = p.2.replace a.view := by
  simp only [addView, mapError_eq_ok_iff, bind_eq_ok_iff, pure_eq_ok_iff]

end Build

/-- Catalogues of models that are alike, with views that are alike. -/
structure Catalogue.Alike (c c' : Catalogue) : Prop where
  model : c.model.graph.Alike c'.model.graph
  flat : c.model.Flat
  flat' : c'.model.Flat
  views : List.Forall₂ (View.Alike c.model.graph c'.model.graph) c.views c'.views

namespace Catalogue.Alike

variable {settings : Settings} {c c' d d' : Catalogue} {declared : Declaration.View} {v v' : View}

theorem replace (h : c.Alike c') (hv : View.Alike c.model.graph c'.model.graph v v') :
    (c.replace v).Alike (c'.replace v') := by
  refine ⟨h.model, h.flat, h.flat', ?_⟩
  refine List.forall₂_map_left_iff.mpr (List.forall₂_map_right_iff.mpr (h.views.imp ?_))
  intro w w' hw
  rw [hw.key, hv.key]
  split
  · exact hv
  · exact hw

theorem addView (h : c.Alike c') (hd : Build.addView settings c declared = .ok d)
    (hd' : Build.addView settings c' declared = .ok d') : d.Alike d' := by
  obtain ⟨r, hr, ⟨v, m⟩, hv, a, ha, rfl⟩ := Build.addView_eq_ok_iff.mp hd
  obtain ⟨r', hr', ⟨v', m'⟩, hv', a', ha', rfl⟩ := Build.addView_eq_ok_iff.mp hd'
  cases Except.ok.inj (hr.symm.trans hr')
  have halike := view_of_define h.model h.flat h.flat' hv hv'
  obtain ⟨steps, hsteps⟩ := Build.view_of_animated ha
  obtain ⟨steps', hsteps'⟩ := Build.view_of_animated ha'
  cases catalogue_of_define hv
  cases catalogue_of_define hv'
  refine replace ⟨h.model, h.flat, h.flat', List.rel_append h.views (.cons halike .nil)⟩ ?_
  rw [hsteps, hsteps']
  exact ⟨halike.key, halike.layout, halike.rules, halike.elements, halike.relationships,
    halike.relationships'⟩

/-- Declared views make catalogues that are alike. -/
theorem addViews {views : List Declaration.View} (h : c.Alike c')
    (hd : views.foldlM (Build.addView settings) c = .ok d)
    (hd' : views.foldlM (Build.addView settings) c' = .ok d') : d.Alike d' := by
  induction views generalizing c c' with
  | nil =>
    cases Except.ok.inj hd
    cases Except.ok.inj hd'
    exact h
  | cons view views ih =>
    obtain ⟨m, hm, hd⟩ := foldlM_cons_eq_ok_iff.mp hd
    obtain ⟨m', hm', hd'⟩ := foldlM_cons_eq_ok_iff.mp hd'
    exact ih (h.addView hm hm') hd hd'

end Catalogue.Alike

/-! ## Views that are rendered -/

namespace Build

variable {g g' : Graph} {c : Style.Cascade} {rules : List Style.Rule} {v v' : View}
  {r r' : RenderedView} {ids : List Text} {es : List Element}

theorem nodes_of_get (h : ids.mapM g.get = .ok es) :
    es.map (fun e => (⟨e.id, e.parent⟩ : Layout.Node)) =
      ids.map fun id => ⟨id, (g.find? id).bind (·.parent)⟩ := by
  rw [mapM_eq_ok_iff] at h
  induction h with
  | nil => rfl
  | cons hget _ ih =>
    have hfind := Graph.get_eq_ok_iff.mp hget
    rw [List.map_cons, List.map_cons, ih, hfind, (Graph.mem_of_find? hfind).2, Option.bind_some]

section
variable (h : g.Alike g') (hg : g.Forest) (hg' : g'.Forest)
include h hg hg'

theorem parent_find?_eq (id : Text) :
    (g.find? id).bind (·.parent) = (g'.find? id).bind (·.parent) := by
  rcases h.find?_cases hg hg' id with ⟨hn, hn'⟩ | ⟨e, e', he, he', hsame⟩
  · rw [hn, hn']
  · rw [he, he', Option.bind_some, Option.bind_some, hsame.parent_eq]

/-- An element has the same style in graphs that are alike. -/
theorem resolve_eq {e e' : Element} (hsame : e.Same e') :
    c.resolve (some g) rules (.element e) = c.resolve (some g') rules (.element e') := by
  have htags : (Style.Styled.element e).tags (some g) =
      (Style.Styled.element e').tags (some g') := by
    simp only [Style.Styled.tags, Option.bind_some, hsame.definition?_eq, hsame.tags_eq]
    cases e'.definition? with
    | none => rfl
    | some d =>
      simp only [Option.bind_some]
      rcases h.find?_cases hg hg' d with ⟨hn, hn'⟩ | ⟨q, q', hq, hq', hdef⟩
      · rw [hn, hn']
      · simp only [hq, hq', hdef.tags_eq]
  have hstyled : (Style.Styled.element e).isStyledBy (some g) =
      (Style.Styled.element e').isStyledBy (some g') := by
    funext rule
    rw [Style.Styled.isStyledBy, Style.Styled.isStyledBy, htags]
    rfl
  rw [Style.Cascade.resolve, Style.Cascade.resolve, Style.Styled.style, Style.Styled.style, hstyled]
  rfl

theorem renderElement_eq : renderElement g c rules = renderElement g' c rules := by
  funext p
  rcases h.find?_cases hg hg' p.element with ⟨hn, hn'⟩ | ⟨e, e', he, he', hsame⟩
  · simp only [renderElement, Graph.get, hn, hn']
    rfl
  · simp only [renderElement, Graph.get, he, he']
    refine congrArg Except.ok (RenderedElement.mk.injEq .. ▸ ?_)
    exact ⟨hsame.id_eq, congrArg (·.label) hsame.type_eq, hsame.name_eq, hsame.description_eq,
      hsame.technology_eq, hsame.parent_eq, hsame.tags_eq, rfl, resolve_eq h hg hg' hsame⟩

/-- Views that are alike have the same rendered elements. -/
theorem elements_of_renderView (hn : g.Numbered) (hn' : g'.Numbered)
    (hv : View.Alike g g' v v') (hr : renderView g c v = .ok r)
    (hr' : renderView g' c v' = .ok r') : (r.key, r.elements) = (r'.key, r'.elements) := by
  simp only [renderView, bind_eq_ok_iff, pure_eq_ok_iff] at hr hr'
  obtain ⟨es, hes, rs, hrs, ps, hps, xs, hxs, rfl⟩ := hr
  obtain ⟨es', hes', rs', hrs', ps', hps', xs', hxs', rfl⟩ := hr'
  rw [hv.relationships, hn.mapM_relationshipsBetween] at hrs
  rw [hv.relationships', hn'.mapM_relationshipsBetween] at hrs'
  cases Except.ok.inj hrs
  cases Except.ok.inj hrs'
  rw [nodes_of_get hes] at hps
  rw [nodes_of_get hes', ← hv.layout] at hps'
  have hplaced : ps = ps' := by
    refine Except.ok.inj (hps.symm.trans (.trans ?_ hps'))
    refine Layout.place_congr (fun id => ?_) (fun id => ?_) (fun s _ d _ _ => ?_)
    · simp only [List.map_map, Function.comp_def, List.map_id', hv.elements id]
    · simp only [Layout.parentOf_map, parent_find?_eq h hg hg', hv.elements id]
    · simp only [Graph.mem_ends_relationshipsBetween_iff, h.connects, hv.elements]
  rw [hplaced, hv.rules, renderElement_eq h hg hg'] at hxs
  exact Prod.ext hv.key (Except.ok.inj (hxs.symm.trans hxs'))

end

theorem elements_of_renderViews {d d' : Catalogue} {rs rs' : List RenderedView} (h : d.Alike d')
    (hrs : d.views.mapM (renderView d.model.graph c) = .ok rs)
    (hrs' : d'.views.mapM (renderView d'.model.graph c) = .ok rs') :
    rs.map (fun r => (r.key, r.elements)) = rs'.map fun r => (r.key, r.elements) := by
  rw [mapM_eq_ok_iff] at hrs hrs'
  have hviews := h.views
  generalize d.views = vs at hrs hviews
  generalize d'.views = vs' at hrs' hviews
  induction hviews generalizing rs rs' with
  | nil =>
    cases hrs
    cases hrs'
    rfl
  | cons hv _ ih =>
    obtain _ | ⟨hr, hrs⟩ := hrs
    obtain _ | ⟨hr', hrs'⟩ := hrs'
    rw [List.map_cons, List.map_cons, ih hrs hrs', elements_of_renderView h.model h.flat.forest
      h.flat'.forest h.flat.numbered h.flat'.numbered hv hr hr']

/-! ## Workspaces that are built -/

variable {settings : Settings} {load : Style.Loader} {asked : Option Text}
  {w : Declaration.Workspace} {p p' : Payload} {model' : List Declaration.ModelMember}

theorem catalogue_eq_ok_iff {m : Identifier.Mode} {d : Catalogue} :
    catalogue settings m w = .ok d ↔ ∃ f, Model.assemble m w.model = .ok f ∧
      w.views.views.foldlM (addView settings) { model := f } = .ok d := by
  simp only [catalogue, bind_eq_ok_iff, mapError_eq_ok_iff]

theorem finish_eq_ok_iff {m : Identifier.Mode} {d : Catalogue} :
    (finish load w m d).result = .ok p ↔ (Style.Cascade.loadAll load {} w.views.themes).1 = none ∧
      payload w m d (Style.Cascade.loadAll load {} w.views.themes).2 = .ok p := by
  simp only [finish, mapError_eq_ok_iff]
  cases (Style.Cascade.loadAll load {} w.views.themes).1 <;> simp

theorem ofWorkspace_eq_finish {m : Identifier.Mode} {d : Catalogue}
    (hm : mode settings asked w.identifiers = .ok m) (hd : catalogue settings m w = .ok d) :
    ofWorkspace settings load asked w = finish load w m d := by
  rw [ofWorkspace, hm]
  simp only [bind, Except.bind, hd, pure, Except.pure]

/-- A build has its model and its views before it asks for a theme. -/
theorem ofWorkspace_cases (settings : Settings) (load : Style.Loader) (asked : Option Text)
    (w : Declaration.Workspace) :
    (∃ m d, mode settings asked w.identifiers = .ok m ∧ catalogue settings m w = .ok d ∧
      ofWorkspace settings load asked w = finish load w m d) ∨
    ∃ e, ofWorkspace settings load asked w = { result := .error e } := by
  cases hm : mode settings asked w.identifiers with
  | error e => exact .inr ⟨e, by rw [ofWorkspace, hm]; rfl⟩
  | ok m =>
    cases hd : catalogue settings m w with
    | error e => exact .inr ⟨e, by rw [ofWorkspace, hm]; simp only [bind, Except.bind, hd]⟩
    | ok d => exact .inl ⟨m, d, rfl, hd, ofWorkspace_eq_finish hm hd⟩

/-- A build succeeds if its model is assembled, its views are added, and these are rendered with the
themes that are loaded. -/
theorem ofWorkspace_eq_ok_iff : (ofWorkspace settings load asked w).result = .ok p ↔
    ∃ m, mode settings asked w.identifiers = .ok m ∧ ∃ d, catalogue settings m w = .ok d ∧
      (finish load w m d).result = .ok p := by
  constructor
  · intro h
    rcases ofWorkspace_cases settings load asked w with ⟨m, d, hm, hd, heq⟩ | ⟨e, heq⟩
    · exact ⟨m, hm, d, hd, heq ▸ h⟩
    · rw [heq] at h
      cases h
  · rintro ⟨m, hm, d, hd, hp⟩
    rwa [ofWorkspace_eq_finish hm hd]

theorem payload_eq_ok_iff {m : Identifier.Mode} {d : Catalogue} {c : Style.Cascade} :
    payload w m d c = .ok p ↔ ∃ rules, w.views.styles.rules "local" = .ok rules ∧
      ∃ views, d.views.mapM (renderView d.model.graph (rules.foldl .addOwn c)) = .ok views ∧
        p = { name := w.name, description := w.description, identifiers := m
              themes := (rules.foldl Style.Cascade.addOwn c).themeUrls, model := d.model.graph
              views } := by
  simp only [payload, bind_eq_ok_iff, mapError_eq_ok_iff, pure_eq_ok_iff]

/-- The elements of a rendered view do not depend on the order of declarations. Of a workspace with
flat ids, in which every declaration has an identifier and environments have different names, every
view is rendered with the same elements, at the same places and in the same style, if the model is
reordered, as long as both can be built. -/
theorem elements_of_reordered (hmode : mode settings asked w.identifiers = .ok .flat)
    (he : Model.Identified (Model.script w.model))
    (hv : ((Model.script w.model).filterMap (·.environmentName)).Nodup)
    (hr : Model.Reordered w.model model')
    (h : (ofWorkspace settings load asked w).result = .ok p)
    (h' : (ofWorkspace settings load asked { w with model := model' }).result = .ok p') :
    p.views.map (fun v => (v.key, v.elements)) = p'.views.map fun v => (v.key, v.elements) := by
  obtain ⟨m, hm, d, hd, hp⟩ := ofWorkspace_eq_ok_iff.mp h
  obtain ⟨m', hm', d', hd', hp'⟩ := ofWorkspace_eq_ok_iff.mp h'
  cases Except.ok.inj (hm.symm.trans hmode)
  cases Except.ok.inj (hm'.symm.trans hmode)
  obtain ⟨f, hf, hd⟩ := catalogue_eq_ok_iff.mp hd
  obtain ⟨f', hf', hd'⟩ := catalogue_eq_ok_iff.mp hd'
  obtain ⟨rules, hrules, vs, hvs, rfl⟩ := payload_eq_ok_iff.mp (finish_eq_ok_iff.mp hp).2
  obtain ⟨rules', hrules', vs', hvs', rfl⟩ := payload_eq_ok_iff.mp (finish_eq_ok_iff.mp hp').2
  cases Except.ok.inj (hrules.symm.trans hrules')
  have hgraphs := Model.alike_of_reordered he hr hf hf'
  have hflat := Model.flat_of_assemble he hv hf
  have hflat' := Model.flat_of_assemble (hr.identified he)
    ((hr.script_perm.filterMap _).nodup_iff.mp hv) hf'
  have halike : d.Alike d' := Catalogue.Alike.addViews ⟨hgraphs, hflat, hflat', .nil⟩ hd hd'
  exact elements_of_renderViews halike hvs hvs'

/-- The shop with its system before the customer, and with the instances on its host the other way
round. -/
def shopReordered : List Declaration.ModelMember :=
  match Model.shop with
  | [customer, system, uses, .environment v [.node d n [web, books]]] =>
    [system, customer, uses, .environment v [.node d n [books, web]]]
  | members => members

/-- A workspace with a view of the containers of the shop and one of its deployment. -/
def shopWorkspace : Declaration.Workspace :=
  { name := "Shop"
    identifiers := some .flat
    model := Model.shop
    views :=
      { views :=
          [{ kind := .container, subject := "shop", included := [everything]
             autoLayout := some {} },
            { kind := .deployment, subject := everything, environment := some "Live"
              included := [everything] }] } }

/-- The build of the workspace with some model. -/
def shopBuild (members : List Declaration.ModelMember) : Build :=
  ofWorkspace {} (fun _ => .ok []) none { shopWorkspace with model := members }

/-- The payload of the workspace with some model. -/
def shopPayload (members : List Declaration.ModelMember) : Payload :=
  (shopBuild members).result.toOption.getD default

theorem shop_elements_reordered : Model.Reordered Model.shop shopReordered ∧
    (shopBuild Model.shop).result = .ok (shopPayload Model.shop) ∧
      (shopBuild shopReordered).result = .ok (shopPayload shopReordered) ∧
      (shopPayload Model.shop).views.map (fun v => (v.key, v.elements)) =
        (shopPayload shopReordered).views.map fun v => (v.key, v.elements) := by
  have hr : Model.Reordered Model.shop shopReordered := by
    refine ⟨_, .cons (.refl _) (.cons (.refl _) (.cons (.refl _) (.cons (.environment _ ?_) .nil))),
      .swap ..⟩
    exact ⟨_, .cons (.node _ _ ⟨_, List.forall₂_same.mpr fun _ _ => .refl _, .swap ..⟩) .nil,
      .refl _⟩
  have h : (shopBuild Model.shop).result = .ok (shopPayload Model.shop) :=
    eq_ok_of_isOk (by cbv)
  have h' : (shopBuild shopReordered).result = .ok (shopPayload shopReordered) :=
    eq_ok_of_isOk (by cbv)
  exact ⟨hr, h, h', elements_of_reordered (by rfl) (by decide +kernel) (by decide +kernel) hr h h'⟩

end Build

end SystemAtlas
