import SystemAtlas.Proofs.Build.Closure
import SystemAtlas.Proofs.Declaration.Reading
import SystemAtlas.Proofs.Declaration.Styling
import SystemAtlas.Proofs.Layout.Seats
import SystemAtlas.Proofs.View.Refusal

/-! # How a build fails

Every stage of a build fails with build errors, and the build adds the phase. What a build fails
with otherwise is told by `Defect`: a document that is neither read nor refused, a style with an
empty tag, and a circle that is too wide for its elements. There is nothing else, apart from what
the loader fails with on a theme of the document (`run_failsAs`), and with a defect nothing is
built (`Defect.not_built`). -/

namespace SystemAtlas

open Failure (IsBuild IsPhased)
open Identifier (Mode)
open Layout (Strategy)

/-! ## Documents that are read -/

namespace Declaration

/-- The document that a source is, or that its text spells. -/
def document? : Json → Option Json
  | .string s => (Json.parse s).toOption
  | j => some j

/-- What keeps a source from being read and from being refused with a build error. -/
inductive Unreadable (source : Json) : Failure → Prop
  /-- A text that goes beyond a limit of reading. -/
  | limit {s : Text} {fault : Json.SyntaxFault} (hs : source = .string s)
      (hfault : Json.parse s = .error fault) (hlimit : fault.problem.isLimit = true) :
      Unreadable source (.unreadable fault.problem)
  /-- A view that includes a value without items. -/
  | bareInclude {fields : Json.Fields} {type : Text}
      (hfields : document? source = some (.object fields))
      (hbare : Workspace.Bare (Workspace.content fields) type) : Unreadable source (.noItems type)
  /-- Half of a surrogate pair in some text of the document, which the message of a fault tells. -/
  | half {fields : Json.Fields} {faults : List Fault} {fault : EncodingFault}
      (hfields : document? source = some (.object fields))
      (hhalf : Json.wholeFields fields = false)
      (hfaulty : Workspace.checked (Workspace.content fields) = .faulty faults)
      (hfault : faults.findSome? (·.problem.encodingFault?) = some fault) :
      Unreadable source (.unencodable fault)

namespace Workspace

variable {fields : Json.Fields} {j : Json}

theorem isWhole_content (h : Json.wholeFields fields = true) : (content fields).isWhole = true := by
  rw [content.eq_def]
  split
  · next key j =>
    split
    · exact (Bool.and_eq_true_iff.mp h).1
    · exact h
  · exact h

/-- All faults of a document are told, unless one of them cannot be. -/
theorem refusal_cases (faults : List Fault) : (refusal faults).IsPhased ∨
    ∃ fault, faults.findSome? (·.problem.encodingFault?) = some fault ∧
      refusal faults = .unencodable fault ∧ ¬∀ f ∈ faults, f.problem.Plain := by
  rw [refusal]
  split
  · next fault hfault =>
    obtain ⟨f, hf, hf'⟩ := List.exists_of_findSome?_eq_some hfault
    refine .inr ⟨fault, hfault, rfl, fun hplain => ?_⟩
    rw [hplain f hf] at hf'
    cases hf'
  · exact .inl ⟨_, rfl, rfl⟩

theorem ofJson_failsAs {source : Json} (hj : document? source = some j) :
    FailsAs (fun f => f.IsPhased ∨ Unreadable source f) (ofJson j) := by
  cases j with
  | object fields =>
    have hregular := checked_regular (W := Json.wholeFields fields = true) (j := content fields)
      isWhole_content
    rw [ofJson]
    split
    · exact .ok
    · next faults hfaulty =>
      rw [hfaulty] at hregular
      refine .error ?_
      obtain h | ⟨fault, hfault, hrefusal, hhalf⟩ := refusal_cases faults
      · exact .inl h
      · refine .inr (hrefusal ▸ .half hj ?_ hfaulty hfault)
        exact Bool.eq_false_iff.mpr fun hwhole => hhalf (hregular hwhole)
    · next type hstopped =>
      rw [hstopped] at hregular
      exact .error (.inr (.bareInclude hj hregular))
  | _ => exact .error (.inl ⟨_, rfl, rfl⟩)

/-- A source is read or refused, unless something keeps it from both. -/
theorem ofSource_failsAs (source : Json) :
    FailsAs (fun f => f.IsPhased ∨ Unreadable source f) (ofSource source) := by
  cases source with
  | string s =>
    rw [ofSource, ofText]
    split
    · next j hj => exact ofJson_failsAs (by rw [document?, hj]; rfl)
    · next fault hfault =>
      rw [Failure.ofSyntax]
      split
      · next hlimit => exact .error (.inr (.limit rfl hfault hlimit))
      · exact .error (.inl ⟨_, rfl, rfl⟩)
  | _ =>
    simp only [ofSource]
    exact ofJson_failsAs rfl

end Workspace

/-- A document with a view that includes a value without items is not refused. -/
theorem Workspace.ofJson_of_bare {fields : Json.Fields} {type : Text}
    (h : Workspace.Bare (Workspace.content fields) type) :
    ∃ first, Workspace.ofJson (.object fields) = .error (.noItems first) := by
  obtain ⟨first, hstopped⟩ := h.stops
  exact ⟨first, by rw [Workspace.ofJson, hstopped]⟩

theorem Workspace.ofSource_of_document {source : Json} {fields : Json.Fields}
    (h : document? source = some (.object fields)) :
    Workspace.ofSource source = Workspace.ofJson (.object fields) := by
  cases source with
  | string s =>
    rw [document?] at h
    rw [Workspace.ofSource, Workspace.ofText]
    cases hs : Json.parse s with
    | ok j =>
      rw [hs] at h
      cases h
      rfl
    | error fault =>
      rw [hs] at h
      cases h
  | object fields' =>
    cases h
    rfl
  | _ => cases h

/-- What cannot be read declares no workspace. -/
theorem Unreadable.not_read {source : Json} {f : Failure} {w : Workspace}
    (h : Unreadable source f) : Workspace.ofSource source ≠ .ok w := by
  intro hw
  cases h with
  | limit hs hfault hlimit =>
    rw [hs, Workspace.ofSource, Workspace.ofText, hfault] at hw
    cases hw
  | bareInclude hfields hbare =>
    obtain ⟨first, herror⟩ := Workspace.ofJson_of_bare hbare
    rw [Workspace.ofSource_of_document hfields, herror] at hw
    cases hw
  | half hfields _ hfaulty _ =>
    rw [Workspace.ofSource_of_document hfields, Workspace.ofJson, hfaulty] at hw
    cases hw

/-! ## Workspaces that are built -/

/-- Among all styles of views, one has an empty tag. -/
def Views.HasEmptyTag (vs : Views) : Prop :=
  vs.styles.HasEmptyTag ∨ ∃ v ∈ vs.views, v.styles.HasEmptyTag

end Declaration

/-- A view is laid out as a circle that is too wide for its elements. -/
def View.Unmeasurable (v : View) : Prop :=
  v.layout.strategy = some Strategy.circular.name ∧ Layout.TooWide v.layout v.elements.length

/-- What keeps a workspace from being built in a mode and from being refused with a build error. -/
inductive Build.Unbuildable (settings : Settings) (m : Mode) (w : Declaration.Workspace) :
    Failure → Prop
  /-- A style with an empty tag. -/
  | emptyTag (h : w.views.HasEmptyTag) : Unbuildable settings m w (.style .noSelector)
  /-- A view whose circle is too wide for it. -/
  | unmeasurable {c : Catalogue} {v : View} (hc : Build.catalogue settings m w = .ok c)
      (hv : v ∈ c.views) (h : v.Unmeasurable) : Unbuildable settings m w .unmeasurable

/-- What a build of a source fails with although it is no build error. -/
def Build.Defect (settings : Settings) (asked : Option Text) (source : Json) (f : Failure) : Prop :=
  Declaration.Unreadable source f ∨ ∃ w, Declaration.Workspace.ofSource source = .ok w ∧
    ∃ m, Build.mode settings asked w.identifiers = .ok m ∧ Build.Unbuildable settings m w f

namespace Build.Unbuildable

variable {settings : Settings} {m : Mode} {w : Declaration.Workspace} {f : Failure}

theorem not_isBuild (h : Unbuildable settings m w f) : ¬f.IsBuild := by
  rintro ⟨e, rfl⟩
  cases h

theorem onBuild {g : BuildError → BuildError} (h : f.IsBuild ∨ Unbuildable settings m w f) :
    (f.onBuild g).IsBuild ∨ Unbuildable settings m w (f.onBuild g) :=
  h.imp (·.onBuild) fun h : Unbuildable settings m w f => by
    rwa [Failure.onBuild_of_not_isBuild h.not_isBuild]

theorem inPhase {phase : Phase} (h : f.IsBuild ∨ Unbuildable settings m w f) :
    (f.inPhase phase).IsPhased ∨ Unbuildable settings m w (f.inPhase phase) :=
  h.imp (·.inPhase phase) fun h : Unbuildable settings m w f => by
    rwa [Failure.inPhase, Failure.onBuild_of_not_isBuild h.not_isBuild]

end Build.Unbuildable

namespace Build

variable {settings : Settings} {m : Mode} {c : Catalogue} {d : Declaration.View}
  {w : Declaration.Workspace}

/-! ## Views that are added -/

theorem target_failsAs {v : View} {reference : Text} : FailsAs IsBuild (target c v reference) := by
  rw [target]
  split
  · exact Catalogue.lookup_failsAs.map
  · exact Catalogue.lookup_failsAs.map

theorem animateStep_failsAs {a : Animation} {references : List Text} :
    FailsAs IsBuild (animateStep c a references) :=
  (FailsAs.mapM fun _ _ => target_failsAs).bind fun _ _ => Animation.addStep_failsAs.map

section
variable (h : w.views.Colored) (hd : d ∈ w.views.views)
include h hd

theorem request_failsAs : FailsAs (Unbuildable settings m w) (request settings d) := by
  refine ((Declaration.Styles.rules_failsAs (h.views d hd)).mapError ?_).bind fun _ _ => .ok
  rintro e ⟨rfl, htag⟩
  exact .emptyTag (.inr ⟨d, hd, htag⟩)

theorem addView_failsAs :
    FailsAs (fun f => f.IsBuild ∨ Unbuildable settings m w f) (addView settings c d) := by
  refine FailsAs.mapError ?_ fun _ => Unbuildable.onBuild
  refine (request_failsAs h hd).inr.bind fun r _ => ?_
  refine (Catalogue.define_failsAs r).inl.bind fun p _ => ?_
  have hsteps : FailsAs IsBuild (d.animation.foldlM (animateStep p.2) (.resume p.1)) :=
    .foldlM_of_forall fun _ _ _ => animateStep_failsAs
  exact hsteps.inl.bind fun _ _ => .ok

end

/-- A catalogue fails with a build error that tells its phase, or for an empty tag. -/
theorem catalogue_failsAs (h : w.views.Colored) :
    FailsAs (fun f => f.IsPhased ∨ Unbuildable settings m w f) (catalogue settings m w) := by
  have hmodel : FailsAs IsPhased ((Model.assemble m w.model).mapError (.inPhase .model)) :=
    (Model.assemble_failsAs m w.model).mapError fun _ hf => hf.inPhase .model
  refine hmodel.inl.bind fun model _ => ?_
  exact FailsAs.mapError (.foldlM_of_forall fun _ _ hd => addView_failsAs h hd) fun _ =>
    Unbuildable.inPhase

/-! ## Views that are rendered -/

/-- The layout of a view has a strategy, and the view shows nothing twice. -/
structure LaidOut (v : View) : Prop where
  strategy : ∃ s : Strategy, v.layout.strategy = some s.name
  nodup : v.elements.Nodup

theorem strategy_directive (settings : Settings) (a : Option Declaration.AutoLayout) :
    ∃ s : Strategy, (directive settings a).strategy = some s.name := by
  cases a with
  | none => exact ⟨.grid, rfl⟩
  | some a => exact ⟨a.direction, rfl⟩

theorem layout_of_alone {f : Model.Finished} {v : View} (h : alone settings f d = .ok v) :
    v.layout = directive settings d.autoLayout := by
  obtain ⟨r, hr, u, hu, a, ha, rfl⟩ := alone_eq_ok_iff.mp h
  obtain ⟨rules, -, hr⟩ := bind_eq_ok_iff.mp hr
  obtain ⟨focus, -, key, -, -, xs, -, -, rfl, -⟩ := Catalogue.define_eq_ok_iff.mp hu
  obtain ⟨steps, hsteps⟩ := view_of_animated ha
  cases hr
  rw [hsteps]
  rfl

theorem laidOut_of_catalogue (h : catalogue settings m w = .ok c) : ∀ v ∈ c.views, LaidOut v := by
  obtain ⟨f, hf, vs, hvs, -, rfl⟩ := catalogue_eq_ok_iff_alone.mp h
  intro v hv
  obtain ⟨d, -, hd⟩ := exists_of_forall₂_mem (mapM_eq_ok_iff.mp hvs) hv
  obtain ⟨hsound, -⟩ :=
    sound_of_alone (Model.wellTyped_of_assemble hf) (Model.numbered_of_assemble hf) hd
  exact ⟨layout_of_alone hd ▸ strategy_directive settings d.autoLayout, hsound.nodup⟩

/-- A view is placed, unless its circle is too wide for it. -/
theorem place_cases {v : View} (hv : LaidOut v) {nodes : List Layout.Node}
    (hnodes : nodes.map (·.id) = v.elements) (edges : List Layout.Edge) :
    (∃ ps, Layout.place v.layout nodes edges = .ok ps) ∧ ¬v.Unmeasurable ∨
      Layout.place v.layout nodes edges = .error .unmeasurable ∧ v.Unmeasurable := by
  obtain ⟨s, hs⟩ := hv.strategy
  have hcount : v.elements.length = nodes.length := by rw [← hnodes, List.length_map]
  have hcircular : v.layout.strategy = some Strategy.circular.name ↔ s = .circular := by
    rw [hs]
    constructor
    · intro h
      exact Option.some.inj <| by
        rw [← Strategy.ofName?_name, Option.some.inj h, Strategy.ofName?_name]
    · rintro rfl
      rfl
  have hwide : Layout.place v.layout nodes edges = .error .unmeasurable ↔ v.Unmeasurable := by
    rw [Layout.place_eq_unmeasurable_iff (hnodes ▸ hv.nodup) hs, View.Unmeasurable, hcircular,
      hcount]
  rw [← hwide, Layout.place_of_name hs]
  cases s.cells? v.layout (.of (nodes.map (·.id)) edges) with
  | some cells => exact .inl ⟨⟨_, rfl⟩, nofun⟩
  | none => exact .inr ⟨rfl, rfl⟩

theorem renderElement_failsAs {g : Model.Graph} {c : Style.Cascade} {rules : List Style.Rule}
    {p : Layout.Placement} : FailsAs IsBuild (renderElement g c rules p) :=
  Model.Graph.get_failsAs.bind fun _ _ => .ok

theorem ids_of_get {g : Model.Graph} {ids : List Text} {es : List Model.Element}
    (h : ids.mapM g.get = .ok es) :
    (es.map fun e => (⟨e.id, e.parent⟩ : Layout.Node)).map (·.id) = ids := by
  rw [nodes_of_get h, ids_nodes]

theorem renderView_failsAs {g : Model.Graph} {s : Style.Cascade} {v : View} (hv : LaidOut v) :
    FailsAs (fun f => f.IsBuild ∨ f = .unmeasurable ∧ v.Unmeasurable) (renderView g s v) := by
  refine (FailsAs.mapM fun _ _ => Model.Graph.get_failsAs).inl.bind fun es hes => ?_
  refine (FailsAs.mapM fun _ _ => Model.Graph.getRelationship_failsAs).inl.bind fun rs _ => ?_
  refine FailsAs.bind (fun f hf => ?_) fun ps _ =>
    (FailsAs.mapM fun _ _ => renderElement_failsAs).inl.bind fun _ _ => .ok
  obtain ⟨⟨ps, hps⟩, -⟩ | ⟨hfailed, hwide⟩ :=
    place_cases hv (ids_of_get hes) (rs.map fun r => (r.source, r.destination))
  · cases hps.symm.trans hf
  · exact .inr ⟨Except.error.inj (hf.symm.trans hfailed), hwide⟩

/-- A view that is rendered has a circle that its elements fit on, if it is laid out as one. -/
theorem not_unmeasurable_of_renderView {g : Model.Graph} {s : Style.Cascade} {v : View}
    {r : RenderedView} (hv : LaidOut v) (h : renderView g s v = .ok r) : ¬v.Unmeasurable := by
  simp only [renderView, bind_eq_ok_iff] at h
  obtain ⟨es, hes, rs, -, ps, hps, -⟩ := h
  obtain ⟨-, hfits⟩ | ⟨hfailed, -⟩ :=
    place_cases hv (ids_of_get hes) (rs.map fun r => (r.source, r.destination))
  · exact hfits
  · cases hfailed.symm.trans hps

theorem payload_failsAs {s : Style.Cascade} (h : w.views.Colored)
    (hc : catalogue settings m w = .ok c) :
    FailsAs (fun f => f.IsBuild ∨ Unbuildable settings m w f) (payload w m c s) := by
  refine ((Declaration.Styles.rules_failsAs h.styles).mapError ?_).bind fun _ _ => ?_
  · rintro e ⟨rfl, htag⟩
    exact .inr (.emptyTag (.inl htag))
  · refine FailsAs.bind (FailsAs.mapM fun v hv => ?_) fun _ _ => .ok
    refine (renderView_failsAs (laidOut_of_catalogue hc v hv)).mono fun f hf => hf.imp_right ?_
    rintro ⟨rfl, hwide⟩
    exact .unmeasurable hc hv hwide

/-! ## Builds -/

variable {load : Style.Loader} {asked : Option Text}

theorem load_of_loadTheme {c c' : Style.Cascade} {url : Text} {f : Failure}
    (h : c.loadTheme load url = (.error f, c')) : load url = .error f := by
  rw [Style.Cascade.loadTheme] at h
  split at h
  · cases h
  · dsimp only at h
    split at h
    · cases h
    · next hload =>
      cases h
      exact hload

/-- Loading themes fails as the loader does on one of them. -/
theorem load_of_loadAll {c : Style.Cascade} {urls : List Text} {f : Failure}
    (h : (c.loadAll load urls).1 = some f) : ∃ url ∈ urls, load url = .error f := by
  induction urls generalizing c with
  | nil => cases h
  | cons url rest ih =>
    rw [Style.Cascade.loadAll] at h
    split at h
    · obtain ⟨u, hu, hload⟩ := ih h
      exact ⟨u, List.mem_cons_of_mem _ hu, hload⟩
    · next hload =>
      cases h
      exact ⟨url, List.mem_cons_self, load_of_loadTheme hload⟩

/-- A failure of the loader on a theme of the workspace, in its phase. -/
def OfLoader (load : Style.Loader) (w : Declaration.Workspace) (f : Failure) : Prop :=
  ∃ url ∈ w.views.themes, ∃ e, load url = .error e ∧ f = e.inPhase .styles

theorem finish_failsAs (h : w.views.Colored) (hc : catalogue settings m w = .ok c) :
    FailsAs (fun f => f.IsPhased ∨ Unbuildable settings m w f ∨ OfLoader load w f)
      (finish load w m c).result := by
  rw [finish]
  dsimp only
  split
  · next e he =>
    obtain ⟨url, hurl, hload⟩ := load_of_loadAll he
    exact .error (.inr (.inr ⟨url, hurl, e, hload, rfl⟩))
  · exact (payload_failsAs h hc).mapError fun _ hf => (Unbuildable.inPhase hf).imp_right .inl

/-- A mode of identifiers that is asked for, or set, has its name. -/
structure Moded (settings : Settings) (asked : Option Text) : Prop where
  settings : (Mode.ofName? settings.identifiers).isSome = true
  asked : ∀ name, asked = some name → (Mode.ofName? name).isSome = true

theorem mode_failsAs {declared : Option Mode} (h : Moded settings asked) :
    FailsAs (fun _ => False) (mode settings asked declared) := by
  have hname : ∀ name, (Mode.ofName? name).isSome = true → FailsAs (fun _ => False)
      (Mode.ofName name) := by
    intro name hname
    obtain ⟨m, hm⟩ := Option.isSome_iff_exists.mp hname
    rw [Mode.ofName, hm]
    exact .ok
  rw [mode.eq_def]
  split
  · next name hasked => exact hname _ (h.asked _ (Option.filter_eq_some_iff.mp hasked).1)
  · exact .ok
  · exact hname _ h.settings

theorem ofWorkspace_failsAs (hm : Moded settings asked) (h : w.views.Colored) :
    FailsAs (fun f => f.IsPhased ∨ OfLoader load w f ∨
        ∃ m, mode settings asked w.identifiers = .ok m ∧ Unbuildable settings m w f)
      (ofWorkspace settings load asked w).result := by
  cases hmode : mode settings asked w.identifiers with
  | error e => exact (mode_failsAs hm e hmode).elim
  | ok m =>
    cases hc : catalogue settings m w with
    | error e =>
      rw [ofWorkspace, hmode]
      simp only [bind, Except.bind, hc]
      exact .error ((catalogue_failsAs h e hc).imp_right fun he => .inr ⟨m, rfl, he⟩)
    | ok c =>
      rw [ofWorkspace_eq_finish hmode hc]
      exact (finish_failsAs h hc).mono fun f hf =>
        hf.imp_right fun hf => hf.symm.imp_right fun hf => ⟨m, rfl, hf⟩

/-- A build fails with a build error that tells its phase, or for a defect, or as its loader on a
theme of the document. -/
theorem run_failsAs (hm : Moded settings asked) (source : Json) :
    FailsAs (fun f => f.IsPhased ∨ Defect settings asked source f ∨
        ∃ w, Declaration.Workspace.ofSource source = .ok w ∧ OfLoader load w f)
      (run settings load asked (Declaration.Workspace.ofSource source)).result := by
  cases hw : Declaration.Workspace.ofSource source with
  | error e =>
    have he := Declaration.Workspace.ofSource_failsAs source e hw
    exact .error (he.imp_right fun he => .inl (.inl he))
  | ok w =>
    have hcolored := Declaration.Workspace.colored_of_ofSource hw
    refine (ofWorkspace_failsAs hm hcolored).mono fun f hf => hf.imp_right fun hf => ?_
    obtain hf | hf := hf
    · exact .inr ⟨w, rfl, hf⟩
    · exact .inl (.inr ⟨w, hw, hf⟩)

theorem Unbuildable.not_built {f : Failure} {p : Payload} (h : Unbuildable settings m w f)
    (hm : mode settings asked w.identifiers = .ok m) :
    (ofWorkspace settings load asked w).result ≠ .ok p := by
  intro hp
  obtain ⟨m', hm', c, hc, hp⟩ := ofWorkspace_eq_ok_iff.mp hp
  cases hm.symm.trans hm'
  obtain ⟨-, hp⟩ := finish_eq_ok_iff.mp hp
  obtain ⟨rules, hrules, rendered, hrendered, -⟩ := payload_eq_ok_iff.mp hp
  cases h with
  | emptyTag h =>
    obtain h | ⟨d, hd, h⟩ := h
    · exact Declaration.Styles.not_hasEmptyTag_of_rules hrules h
    · obtain ⟨f, -, vs, hvs, -⟩ := catalogue_eq_ok_iff_alone.mp hc
      obtain ⟨v, hv⟩ := exists_mapM_eq_ok_iff.mp ⟨vs, hvs⟩ d hd
      obtain ⟨r, hr, -⟩ := alone_eq_ok_iff.mp hv
      obtain ⟨rules, hrules, -⟩ := bind_eq_ok_iff.mp hr
      exact Declaration.Styles.not_hasEmptyTag_of_rules (mapError_eq_ok_iff.mp hrules) h
  | unmeasurable hc' hv h =>
    cases hc.symm.trans hc'
    obtain ⟨r, hr⟩ := exists_mapM_eq_ok_iff.mp ⟨rendered, hrendered⟩ _ hv
    exact not_unmeasurable_of_renderView (laidOut_of_catalogue hc _ hv) hr h

theorem Defect.not_isBuild {source : Json} {f : Failure} (h : Defect settings asked source f) :
    ¬f.IsBuild := by
  obtain h | ⟨w, -, m, -, h⟩ := h
  · rintro ⟨e, rfl⟩
    cases h
  · exact h.not_isBuild

/-- No source with a defect is built. -/
theorem Defect.not_built {source : Json} {f : Failure} {p : Payload}
    (h : Defect settings asked source f) :
    (run settings load asked (Declaration.Workspace.ofSource source)).result ≠ .ok p := by
  cases hw : Declaration.Workspace.ofSource source with
  | error e => exact nofun
  | ok w =>
    obtain h | ⟨w', hw', m, hm, h⟩ := h
    · exact absurd hw h.not_read
    · cases hw.symm.trans hw'
      exact h.not_built hm

/-- A document with a view that includes a value without items makes every build fail for it. -/
theorem run_of_bare {fields : Json.Fields} {type : Text}
    (h : Declaration.Workspace.Bare (Declaration.Workspace.content fields) type) :
    ∃ first, (run settings load asked (Declaration.Workspace.ofSource (.object fields))).result =
      .error (.noItems first) := by
  obtain ⟨first, herror⟩ := Declaration.Workspace.ofJson_of_bare h
  exact ⟨first, by simp only [Declaration.Workspace.ofSource, herror, run]⟩

end Build

end SystemAtlas
