import SystemAtlas.Proofs.Build.Closure
import SystemAtlas.Proofs.View.Hosting

/-! # Deployments drawn inside their hosts

A deployment that is defined has the hosts of all its elements and nothing that is excluded, at any
level (`hosted_of_define`). A rendered element is grouped under its parent if the view has that
too, so in a deployment it is grouped under its parent whenever it has one
(`group_of_hosted`). -/

namespace SystemAtlas.Build

open Model (Element Graph)

variable {g : Graph} {cascade : Style.Cascade} {v : View} {rendered : RenderedView}

/-- In a view that has the hosts of its elements, everything is grouped under its parent. -/
theorem group_of_hosted (hg : g.Forest) (hv : v.elements.Nodup)
    (hhosted : g.Hosted {x | x ∈ v.elements}) (h : renderView g cascade v = .ok rendered) :
    ∀ x ∈ rendered.elements, ∃ e ∈ g.elements, x.Shows e ∧ x.placement.group = e.parent := by
  intro x hx
  obtain ⟨e, he, hmem, hshows, hgroup⟩ := shows_of_renderView hv h x hx
  refine ⟨e, he, hshows, hgroup.trans ?_⟩
  cases hparent : e.parent with
  | none => rfl
  | some id =>
    obtain ⟨p, hp, rfl⟩ := hg.parent_mem he hparent
    have habove : p ∈ g.ancestors e.id := by
      rw [Graph.ancestors_of_parent hg he hp hparent]
      exact List.mem_cons_self
    have hhost : p.id ∈ v.elements := hhosted e.id hmem p habove
    exact Option.filter_eq_some_iff.mpr ⟨rfl, List.contains_iff_mem.mpr hhost⟩

/-- A deployment of a complete model that is defined, in whatever catalogue, shows what it shows
with all its hosts and nothing at or below an element that is excluded. Rendered with any styles, it
has everything grouped under its parent. -/
theorem hosted_of_define {mode : Identifier.Mode} {members : List Declaration.ModelMember}
    {m : Model.Finished} (h : Model.assemble mode members = .ok m) {c d : Catalogue}
    (hc : c.model = m) {r : View.Request} (hr : r.kind = .deployment)
    (hv : c.define r = .ok (v, d)) :
    (∀ x ∈ v.elements, ∀ a ∈ m.graph.ancestors x, a.id ∈ v.elements) ∧
      (∃ f, c.focus r = .ok f ∧ ∀ reference ∈ r.excluded,
        ∃ e, c.reachable f v.key reference = .ok e ∧
          ∀ x ∈ v.elements, ¬ m.graph.Within e.id x) ∧
      ∀ cascade rendered, renderView m.graph cascade v = .ok rendered →
        ∀ x ∈ rendered.elements, ∃ e ∈ m.graph.elements,
          x.Shows e ∧ x.placement.group = e.parent := by
  obtain rfl := hc
  have hg := Model.wellTyped_of_assemble h
  have hn := Model.numbered_of_assemble h
  have hnodup := (Catalogue.sound_of_define hg hn hv).1.nodup
  obtain ⟨f, hf, key, -, -, xs, hxs, -, rfl, -⟩ := Catalogue.define_eq_ok_iff.mp hv
  have hk : f.kind = .deployment := (Catalogue.of_focus hf).2.trans hr
  obtain ⟨hhosted, hexcluded⟩ := Catalogue.hosted_of_elements hg hk hxs
  exact ⟨hhosted, ⟨f, hf, hexcluded⟩,
    fun cascade rendered hrendered => group_of_hosted hg.forest hnodup hhosted hrendered⟩

/-- A deployment of the shop in the market, with an instance of the other system and without a node
of its own. -/
def marketRequest : View.Request :=
  { kind := .deployment, subject := "shop", environment := some "live"
    included := [everything, "mail1"], excluded := ["rack"]
    layout :=
      { strategy := Layout.Strategy.grid.name, rankSeparation := 300, nodeSeparation := 100 } }

/-- The view that this request asks for, and the catalogue with it. -/
def marketDefined : View × Catalogue :=
  (Catalogue.define { model := Model.marketModel } marketRequest).toOption.getD default

theorem market_hosted : Model.assemble .flat Model.market = .ok Model.marketModel ∧
    Catalogue.define { model := Model.marketModel } marketRequest = .ok marketDefined ∧
    marketDefined.1.elements = (["hall", "desk", "mail1"] : List Text) ∧
    ∃ rendered, renderView Model.marketModel.graph {} marketDefined.1 = .ok rendered ∧
      rendered.elements.map (fun x => (x.id, x.placement.group)) =
        ([("desk", some "hall"), ("hall", none), ("mail1", some "desk")] :
          List (Text × Option Text)) ∧
      ∀ x ∈ rendered.elements, ∃ e ∈ Model.marketModel.graph.elements,
        x.Shows e ∧ x.placement.group = e.parent := by
  have h : Model.assemble .flat Model.market = .ok Model.marketModel := by rfl
  have hv : Catalogue.define { model := Model.marketModel } marketRequest = .ok marketDefined :=
    eq_ok_of_isOk (by decide +kernel)
  have hgroups : (renderView Model.marketModel.graph {} marketDefined.1).toOption.map
      (fun r => r.elements.map fun x => (x.id, x.placement.group)) =
        some ([("desk", some "hall"), ("hall", none), ("mail1", some "desk")] :
          List (Text × Option Text)) := by
    cbv
  cases hrendered : renderView Model.marketModel.graph {} marketDefined.1 with
  | error e =>
    rw [hrendered] at hgroups
    cases hgroups
  | ok rendered =>
    rw [hrendered] at hgroups
    exact ⟨h, hv, by decide +kernel, rendered, rfl, Option.some.inj hgroups,
      (hosted_of_define h rfl rfl hv).2.2 {} rendered hrendered⟩

end SystemAtlas.Build
