import SystemAtlas.Proofs.Build.Rendering

/-! # Views that do not interfere

A view depends on the model and its own declaration only: adding it to a catalogue gives the view it
would be on its own (`addView_eq_ok_iff_alone`), so views can be added exactly if each of them can
on its own and their keys differ (`addViews_eq_ok_iff`). Dropping some views and reordering the
others changes nothing about those that stay (`build_of_subperm`). -/

namespace SystemAtlas.Build

variable {settings : Settings} {c d : Catalogue} {m : Model.Finished}
  {declared : Declaration.View} {declarations : List Declaration.View} {r : View.Request}

/-- The view that a declaration makes of a model, if it is the only one. -/
def alone (settings : Settings) (m : Model.Finished) (declared : Declaration.View) :
    Except Failure View :=
  (·.views.headD default) <$> addView settings { model := m } declared

/-! ## Adding views -/

theorem replace_append {v w : View} (hkey : w.key = v.key) (hnew : v.key ∉ c.keys) :
    Catalogue.replace { c with views := c.views ++ [v] } w =
      { c with views := c.views ++ [w] } := by
  have hothers : c.views.map (fun x => if x.key == w.key then w else x) = c.views := by
    refine (List.map_congr_left fun x hx => if_neg fun he => hnew ?_).trans (List.map_id _)
    rw [← hkey, ← eq_of_beq he]
    exact List.mem_map_of_mem hx
  have hlast : (if v.key == w.key then w else v) = w := if_pos (beq_iff_eq.mpr hkey.symm)
  simp only [Catalogue.replace, List.map_append, hothers, List.map_cons, List.map_nil, hlast]

/-- Apart from the keys that are taken, a view is defined as if there were no others. -/
theorem define_eq_ok_iff_alone {v : View} : c.define r = .ok (v, d) ↔
    v.key ∉ c.keys ∧
      Catalogue.define { model := c.model } r = .ok (v, { model := c.model, views := [v] }) ∧
      d = { c with views := c.views ++ [v] } := by
  have hnew : ∀ {key : Text}, c.keys.contains key = false ↔ key ∉ c.keys := by simp
  rw [Catalogue.define_eq_ok_iff, Catalogue.define_eq_ok_iff]
  constructor
  · rintro ⟨f, hf, key, hkey, hfree, xs, hxs, hne, rfl, rfl⟩
    exact ⟨hnew.mp hfree, ⟨f, hf, key, hkey, rfl, xs, hxs, hne, rfl, rfl⟩, rfl⟩
  · rintro ⟨hfree, ⟨f, hf, key, hkey, -, xs, hxs, hne, rfl, -⟩, rfl⟩
    exact ⟨f, hf, key, hkey, hnew.mpr hfree, xs, hxs, hne, rfl, rfl⟩

/-- A declared view that is added is a defined one, with the steps of its animation. -/
theorem addView_eq_ok_iff_define : addView settings c declared = .ok d ↔
    ∃ r, request settings declared = .ok r ∧ ∃ v, v.key ∉ c.keys ∧
      Catalogue.define { model := c.model } r = .ok (v, { model := c.model, views := [v] }) ∧
      ∃ a, declared.animation.foldlM (animateStep { model := c.model }) (.resume v) = .ok a ∧
        d = { c with views := c.views ++ [a.view] } := by
  rw [addView_eq_ok_iff]
  refine exists_congr fun r => and_congr_right fun _ => ?_
  have hreplaced : ∀ {v : View} {a : Animation}, v.key ∉ c.keys →
      declared.animation.foldlM (animateStep { model := c.model }) (.resume v) = .ok a →
        Catalogue.replace { c with views := c.views ++ [v] } a.view =
          { c with views := c.views ++ [a.view] } := by
    intro v a hnew ha
    obtain ⟨steps, hsteps⟩ := view_of_animated ha
    exact replace_append (by rw [hsteps]) hnew
  constructor
  · rintro ⟨⟨v, m⟩, hv, a, ha, rfl⟩
    obtain ⟨hnew, hdefine, rfl⟩ := define_eq_ok_iff_alone.mp hv
    exact ⟨v, hnew, hdefine, a, ha, hreplaced hnew ha⟩
  · rintro ⟨v, hnew, hdefine, a, ha, rfl⟩
    exact ⟨_, define_eq_ok_iff_alone.mpr ⟨hnew, hdefine, rfl⟩, a, ha, (hreplaced hnew ha).symm⟩

theorem alone_eq_ok_iff {w : View} : alone settings m declared = .ok w ↔
    ∃ r, request settings declared = .ok r ∧ ∃ v,
      Catalogue.define { model := m } r = .ok (v, { model := m, views := [v] }) ∧
      ∃ a, declared.animation.foldlM (animateStep { model := m }) (.resume v) = .ok a ∧
        w = a.view := by
  simp only [alone, map_eq_ok_iff, addView_eq_ok_iff_define]
  constructor
  · rintro ⟨_, ⟨r, hr, v, -, hv, a, ha, rfl⟩, rfl⟩
    exact ⟨r, hr, v, hv, a, ha, rfl⟩
  · rintro ⟨r, hr, v, hv, a, ha, rfl⟩
    exact ⟨_, ⟨r, hr, v, List.not_mem_nil, hv, a, ha, rfl⟩, rfl⟩

/-- A view has the rules that it is declared with. -/
theorem rules_of_alone {w : View} (h : alone settings m declared = .ok w) :
    declared.styles.rules (ruleSource declared) = .ok w.rules := by
  obtain ⟨request, hrequest, v, hv, a, ha, rfl⟩ := alone_eq_ok_iff.mp h
  obtain ⟨rules, hrules, hrequest⟩ := bind_eq_ok_iff.mp hrequest
  cases Except.ok.inj hrequest
  obtain ⟨f, -, key, -, -, xs, -, -, rfl, -⟩ := Catalogue.define_eq_ok_iff.mp hv
  obtain ⟨steps, hsteps⟩ := view_of_animated ha
  rw [hsteps]
  exact mapError_eq_ok_iff.mp hrules

/-- A view can be added if it could on its own and its key is new, and then it is the same. -/
theorem addView_eq_ok_iff_alone : addView settings c declared = .ok d ↔
    ∃ v, alone settings c.model declared = .ok v ∧ v.key ∉ c.keys ∧
      d = { c with views := c.views ++ [v] } := by
  have hkey : ∀ {v : View} {a : Animation} {n : Catalogue},
      declared.animation.foldlM (animateStep n) (.resume v) = .ok a → a.view.key = v.key := by
    intro v a n ha
    obtain ⟨steps, hsteps⟩ := view_of_animated ha
    rw [hsteps]
  simp only [addView_eq_ok_iff_define, alone_eq_ok_iff]
  constructor
  · rintro ⟨r, hr, v, hnew, hv, a, ha, rfl⟩
    exact ⟨_, ⟨r, hr, v, hv, a, ha, rfl⟩, hkey ha ▸ hnew, rfl⟩
  · rintro ⟨_, ⟨r, hr, v, hv, a, ha, rfl⟩, hnew, rfl⟩
    exact ⟨r, hr, v, hkey ha ▸ hnew, hv, a, ha, rfl⟩

/-- Views can be added exactly if each of them could on its own and their keys are new and
differ. -/
theorem addViews_eq_ok_iff : declarations.foldlM (addView settings) c = .ok d ↔
    ∃ vs, declarations.mapM (alone settings c.model) = .ok vs ∧
      (∀ v ∈ vs, v.key ∉ c.keys) ∧ (vs.map (·.key)).Nodup ∧
      d = { c with views := c.views ++ vs } := by
  simp only [mapM_eq_ok_iff]
  induction declarations generalizing c with
  | nil =>
    constructor
    · intro h
      cases Except.ok.inj h
      exact ⟨[], .nil, fun _ hv => absurd hv List.not_mem_nil, List.nodup_nil, by simp⟩
    · rintro ⟨vs, hvs, -, -, rfl⟩
      cases hvs
      simp [pure, Except.pure]
  | cons declared declarations ih =>
    -- the rest is added to a catalogue in which the key of the first view is taken too
    have hkeys : ∀ {v : View} {key : Text},
        key ∉ Catalogue.keys { c with views := c.views ++ [v] } ↔ key ∉ c.keys ∧ key ≠ v.key := by
      simp [Catalogue.keys]
    rw [foldlM_cons_eq_ok_iff]
    constructor
    · rintro ⟨m, hm, h⟩
      obtain ⟨v, hv, hnew, rfl⟩ := addView_eq_ok_iff_alone.mp hm
      obtain ⟨vs, hvs, hfree, hn, rfl⟩ := ih.mp h
      refine ⟨v :: vs, .cons hv hvs, List.forall_mem_cons.mpr ⟨hnew, fun x hx =>
        (hkeys.mp (hfree x hx)).1⟩, List.nodup_cons.mpr ⟨fun hmem => ?_, hn⟩, by simp⟩
      obtain ⟨x, hx, hxv⟩ := List.mem_map.mp hmem
      exact (hkeys.mp (hfree x hx)).2 hxv
    · rintro ⟨_, hvs, hfree, hn, rfl⟩
      obtain _ | ⟨hv, hvs⟩ := hvs
      obtain ⟨hnew, hfree⟩ := List.forall_mem_cons.mp hfree
      obtain ⟨hnot, hn⟩ := List.nodup_cons.mp hn
      refine ⟨_, addView_eq_ok_iff_alone.mpr ⟨_, hv, hnew, rfl⟩, ih.mpr ⟨_, hvs, fun x hx => ?_, hn,
        by simp⟩⟩
      exact hkeys.mpr ⟨hfree x hx, fun he => hnot (List.mem_map.mpr ⟨x, hx, he⟩)⟩

/-! ## Workspaces with other views -/

variable {load : Style.Loader} {asked : Option Text} {w : Declaration.Workspace} {p : Payload}
  {views : List Declaration.View}

/-- The catalogue of a workspace has the views that its declarations make on their own, if their
keys differ. -/
theorem catalogue_eq_ok_iff_alone {mode : Identifier.Mode} :
    catalogue settings mode w = .ok d ↔ ∃ f, Model.assemble mode w.model = .ok f ∧
      ∃ vs, w.views.views.mapM (alone settings f) = .ok vs ∧ (vs.map (·.key)).Nodup ∧
        d = { model := f, views := vs } := by
  rw [catalogue_eq_ok_iff]
  refine exists_congr fun f => and_congr_right fun _ => ?_
  rw [addViews_eq_ok_iff]
  refine exists_congr fun vs => and_congr_right fun _ => ?_
  exact and_iff_right fun _ _ => List.not_mem_nil

theorem requested_of_result (h : (ofWorkspace settings load asked w).result = .ok p) :
    (ofWorkspace settings load asked w).requested =
      (Style.Cascade.loadAll load {} w.views.themes).2.requested := by
  obtain ⟨m, hm, d, hd, -⟩ := ofWorkspace_eq_ok_iff.mp h
  rw [ofWorkspace_eq_finish hm hd]
  rfl

/-- Views do not interfere. If a workspace can be built, then so it can with some of its views
dropped and the others reordered. The themes that are loaded and the payload are the same but for
the views, and those that stay are what they were. -/
theorem build_of_subperm (hviews : views.Subperm w.views.views)
    (h : (ofWorkspace settings load asked w).result = .ok p) :
    ∃ render : Declaration.View → RenderedView, p.views = w.views.views.map render ∧
      (ofWorkspace settings load asked { w with views := { w.views with views } }).result =
        .ok { p with views := views.map render } ∧
      (ofWorkspace settings load asked { w with views := { w.views with views } }).requested =
        (ofWorkspace settings load asked w).requested := by
  obtain ⟨m, hm, d, hd, hp⟩ := ofWorkspace_eq_ok_iff.mp h
  obtain ⟨f, hf, vs, hvs, hn, rfl⟩ := catalogue_eq_ok_iff_alone.mp hd
  obtain ⟨hload, hp⟩ := finish_eq_ok_iff.mp hp
  obtain ⟨rules, hrules, rs, hrs, hp⟩ := payload_eq_ok_iff.mp hp
  obtain ⟨view, hview, rfl⟩ := exists_map_of_mapM hvs
  rw [List.mapM_map] at hrs
  obtain ⟨render, hrender, rfl⟩ := exists_map_of_mapM hrs
  obtain ⟨kept, hkept, hsub⟩ := hviews
  have hmem : ∀ x ∈ views, x ∈ w.views.views := fun x hx => hsub.subset (hkept.mem_iff.mpr hx)
  have hkeys : ((views.map view).map (·.key)).Nodup :=
    ((hkept.map view).map (·.key)).nodup_iff.mp (((hsub.map view).map (·.key)).nodup hn)
  have hresult : (ofWorkspace settings load asked
      { w with views := { w.views with views } }).result =
        .ok { p with views := views.map render } := by
    refine ofWorkspace_eq_ok_iff.mpr ⟨m, hm, _, catalogue_eq_ok_iff_alone.mpr ⟨f, hf, _,
      mapM_eq_ok_of_forall fun x hx => hview x (hmem x hx), hkeys, rfl⟩, ?_⟩
    refine finish_eq_ok_iff.mpr ⟨hload, payload_eq_ok_iff.mpr ⟨rules, hrules, views.map render,
      ?_, ?_⟩⟩
    · rw [List.mapM_map]
      exact mapM_eq_ok_of_forall fun x hx => hrender x (hmem x hx)
    · rw [hp]
  exact ⟨render, by rw [hp], hresult, (requested_of_result hresult).trans
    (requested_of_result h).symm⟩

/-- A workspace of one system with three views. -/
def deskWorkspace : Declaration.Workspace :=
  let details (id : Text) : Declaration.Details :=
    { identifier := Identifier.LocalName.ofText? id, name := id }
  { name := "Desk"
    identifiers := some .flat
    model := [.system (details "desk") [.container (details "drawer") []]]
    views :=
      { views :=
          [{ kind := .systemContext, subject := "desk", included := ["desk"] },
            { kind := .container, subject := "desk", included := ["drawer"]
              animation := [["drawer"]] },
            { kind := .systemContext, subject := "desk", key := some "Again"
              included := [everything] }] } }

/-- The build of the desk with some views. -/
def deskBuild (views : List Declaration.View) : Build :=
  ofWorkspace {} (fun _ => .ok []) none
    { deskWorkspace with views := { deskWorkspace.views with views } }

/-- The payload of the desk. -/
def deskPayload : Payload :=
  (deskBuild deskWorkspace.views.views).result.toOption.getD default

/-- The desk without its first view, and with the other two the other way round. -/
theorem desk_of_subperm :
    (deskWorkspace.views.views.drop 1).reverse.Subperm deskWorkspace.views.views ∧
      (deskBuild deskWorkspace.views.views).result = .ok deskPayload ∧
      ∃ render, deskPayload.views = deskWorkspace.views.views.map render ∧
        (deskBuild (deskWorkspace.views.views.drop 1).reverse).result =
          .ok { deskPayload with
            views := (deskWorkspace.views.views.drop 1).reverse.map render } ∧
        (deskBuild (deskWorkspace.views.views.drop 1).reverse).requested =
          (deskBuild deskWorkspace.views.views).requested := by
  have hviews : (deskWorkspace.views.views.drop 1).reverse.Subperm deskWorkspace.views.views :=
    (List.reverse_perm _).subperm.trans (List.drop_sublist 1 _).subperm
  have h : (deskBuild deskWorkspace.views.views).result = .ok deskPayload :=
    eq_ok_of_isOk (by cbv)
  exact ⟨hviews, h, build_of_subperm hviews h⟩

end SystemAtlas.Build
