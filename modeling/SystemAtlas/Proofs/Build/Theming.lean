import SystemAtlas.Proofs.Build.Closure
import SystemAtlas.Proofs.Style.Loading

/-! # When themes are fetched

Themes are loaded once the model is assembled and all views are defined and animated, so the loader
is asked for nothing if a build fails before. It is asked for the themes of the workspace in their
order, each once, up to the first that cannot be loaded (`Build.themes_of_run`). In what is built
the rules of every theme stand once, before those of the workspace and of the view. -/

namespace SystemAtlas

open Model (Graph)
open Style (Cascade Fetches Loader Rule Styled)

/-- Everything that a rendered view shows of a graph has the style that rules give it. -/
structure RenderedView.StyledBy (g : Graph) (rules : List Rule) (v : RenderedView) : Prop where
  elements : ∀ x ∈ v.elements, ∃ e ∈ g.elements, x.Shows e ∧
    x.style = (Styled.element e).style (some g) rules
  relationships : ∀ x ∈ v.relationships, ∃ r ∈ g.relationships, x.Shows r ∧
    x.style = (Styled.relationship r).style (some g) rules

namespace Build

variable {settings : Settings} {load : Loader} {asked : Option Text} {w : Declaration.Workspace}
  {m : Identifier.Mode} {d : Catalogue} {p : Payload} {g : Graph} {c : Cascade} {v : View}
  {r : RenderedView}

/-- The themes of a payload are those of its workspace, each once and in the order of their first
occurrence. Every view is styled by the rules that the loader gives for the themes, in this order,
then by those of the workspace, and then by its own. -/
structure Themed (load : Loader) (w : Declaration.Workspace) (p : Payload) : Prop where
  themes : p.themes = distinct w.views.themes
  styles : ∃ given : Text → List Rule, (∀ url ∈ p.themes, load url = .ok (given url)) ∧
    ∃ own, w.views.styles.rules "local" = .ok own ∧
      List.Forall₂ (fun declared r => ∃ overrides,
        declared.styles.rules (ruleSource declared) = .ok overrides ∧
          r.StyledBy p.model (p.themes.flatMap given ++ own ++ overrides))
        w.views.views p.views

theorem styledBy_of_renderView (h : renderView g c v = .ok r) :
    r.StyledBy g (c.rules v.rules) := by
  simp only [renderView, bind_eq_ok_iff, pure_eq_ok_iff] at h
  obtain ⟨es, -, rs, hrs, ps, -, xs, hxs, rfl⟩ := h
  constructor
  · intro x hx
    obtain ⟨q, -, hq⟩ := exists_of_forall₂_mem (mapM_eq_ok_iff.mp hxs) hx
    obtain ⟨e, hfind, hshows, -, hstyle⟩ := shows_of_renderElement hq
    exact ⟨e, (Graph.mem_of_find? hfind).1, hshows, hstyle⟩
  · intro x hx
    obtain ⟨q, hq, rfl⟩ := List.mem_map.mp hx
    obtain ⟨id, -, hid⟩ := exists_of_forall₂_mem (mapM_eq_ok_iff.mp hrs) hq
    refine ⟨q, ?_, rfl, rfl⟩
    rw [Graph.getRelationship] at hid
    split at hid
    · next hfind => exact Except.ok.inj hid ▸ List.mem_of_find?_eq_some hfind
    · cases hid

/-- The rest of a build asks for the themes, and a theme that cannot be loaded ends it. -/
theorem fetches_of_finish : ∃ failure?,
    Fetches load (distinct w.views.themes) (finish load w m d).requested failure? ∧
      ∀ e, failure? = some e → (finish load w m d).result = .error (e.inPhase .styles) := by
  refine ⟨(Cascade.loadAll load {} w.views.themes).1, (Cascade.Loaded.initial.fetches _).1, ?_⟩
  intro e he
  simp only [finish, he]
  rfl

/-- What is built has the themes that the loader was asked for. -/
theorem themed_of_finish (hd : catalogue settings m w = .ok d)
    (h : (finish load w m d).result = .ok p) :
    (finish load w m d).requested = p.themes ∧ Themed load w p := by
  obtain ⟨hnone, hp⟩ := finish_eq_ok_iff.mp h
  obtain ⟨own, hown, rs, hrs, rfl⟩ := payload_eq_ok_iff.mp hp
  obtain ⟨f, -, vs, hvs, -, rfl⟩ := catalogue_eq_ok_iff_alone.mp hd
  have hinitial : Cascade.Loaded load {} := .initial
  obtain ⟨hfetches, hloaded⟩ := hinitial.fetches w.views.themes
  have hc := hloaded hnone
  rw [hnone] at hfetches
  have hthemes := hc.themeUrls_foldl_addOwn own
  refine ⟨hthemes.symm, hthemes.trans hfetches.eq_of_none, ?_⟩
  simp only [hthemes]
  have hgiven : ∀ url ∈ (Cascade.loadAll load {} w.views.themes).2.requested,
      load url = .ok ((load url).toOption.getD []) := by
    intro url hurl
    obtain ⟨rules, hrules⟩ := hc.loads url hurl
    rw [hrules]
    rfl
  refine ⟨_, hgiven, own, hown, ?_⟩
  obtain ⟨view, hview, rfl⟩ := exists_map_of_mapM hvs
  rw [List.mapM_map] at hrs
  obtain ⟨render, hrender, rfl⟩ := exists_map_of_mapM hrs
  rw [List.forall₂_map_right_iff, List.forall₂_same]
  intro declared hdeclared
  have hstyled := styledBy_of_renderView (hrender declared hdeclared)
  rw [hc.rules_foldl_addOwn hgiven] at hstyled
  exact ⟨_, rules_of_alone (hview declared hdeclared), hstyled⟩

/-- Themes are fetched once, in order, and for a valid model only. If a build asks the loader for a
theme, its model was assembled and all its views were defined and animated. Then it asks for the
themes of the workspace in the order of their first occurrence, each once, up to the first that
cannot be loaded, which it fails with. What is built has these themes, and their rules apply in this
order. -/
theorem themes_of_run (settings : Settings) (load : Loader) (asked : Option Text)
    (source : Except Failure Declaration.Workspace) :
    let b := run settings load asked source
    (b.requested ≠ [] → ∃ w m d, source = .ok w ∧ mode settings asked w.identifiers = .ok m ∧
      catalogue settings m w = .ok d) ∧
    (∀ w m d, source = .ok w → mode settings asked w.identifiers = .ok m →
      catalogue settings m w = .ok d → ∃ failure?,
        Fetches load (distinct w.views.themes) b.requested failure? ∧
          ∀ e, failure? = some e → b.result = .error (e.inPhase .styles)) ∧
    ∀ p, b.result = .ok p → ∃ w, source = .ok w ∧ b.requested = p.themes ∧ Themed load w p := by
  cases source with
  | error e => exact ⟨fun h => absurd rfl h, nofun, nofun⟩
  | ok w =>
    refine ⟨fun h => ?_, fun w' m d hw hm hd => ?_, fun p h => ⟨w, rfl, ?_⟩⟩
    · rcases ofWorkspace_cases settings load asked w with ⟨m, d, hm, hd, -⟩ | ⟨e, heq⟩
      · exact ⟨w, m, d, rfl, hm, hd⟩
      · rw [run, heq] at h
        exact absurd rfl h
    · cases Except.ok.inj hw
      rw [run, ofWorkspace_eq_finish hm hd]
      exact fetches_of_finish
    · obtain ⟨m, hm, d, hd, hp⟩ := ofWorkspace_eq_ok_iff.mp h
      rw [run, ofWorkspace_eq_finish hm hd]
      exact themed_of_finish hd hp

/-- The desk with three themes, of which two are the same. -/
def themedDesk : Declaration.Workspace :=
  { deskWorkspace with views := { deskWorkspace.views with themes := ["plain", "bold", "plain"] } }

/-- A loader that gives one rule for every theme. -/
def rulePerTheme (url : Text) : Except Failure (List Rule) :=
  .ok [{ target := .element, selector := "Element", source := some url
         appearance := [(.icon, .string url)] }]

/-- A loader that gives no theme. -/
def noThemes (url : Text) : Except Failure (List Rule) :=
  .error (Style.Theme.failure url (.status 404))

/-- The payload of the desk with its themes. -/
def themedPayload : Payload :=
  (run {} rulePerTheme none (.ok themedDesk)).result.toOption.getD default

/-- The loader is asked for two themes if it gives them, and for one if it does not. -/
theorem themed_desk : (run {} rulePerTheme none (.ok themedDesk)).result = .ok themedPayload ∧
    (run {} rulePerTheme none (.ok themedDesk)).requested = ["plain", "bold"] ∧
    Themed rulePerTheme themedDesk themedPayload ∧
    (run {} noThemes none (.ok themedDesk)).requested = ["plain"] ∧
    ∃ m d, mode {} none themedDesk.identifiers = .ok m ∧ catalogue {} m themedDesk = .ok d := by
  have h : (run {} rulePerTheme none (.ok themedDesk)).result = .ok themedPayload :=
    eq_ok_of_isOk (by cbv)
  have hrequested : (run {} noThemes none (.ok themedDesk)).requested = ["plain"] := by rfl
  obtain ⟨w, hw, hthemes, hthemed⟩ := (themes_of_run {} rulePerTheme none (.ok themedDesk)).2.2 _ h
  cases Except.ok.inj hw
  have hurls : distinct themedDesk.views.themes = ["plain", "bold"] := by rfl
  obtain ⟨w, m, d, hw, hm, hd⟩ := (themes_of_run {} noThemes none (.ok themedDesk)).1
    (hrequested ▸ List.cons_ne_nil _ _)
  cases Except.ok.inj hw
  exact ⟨h, hthemes.trans (hthemed.themes.trans hurls), hthemed, hrequested, m, d, hm, hd⟩

end Build

end SystemAtlas
