import Mathlib.Order.Bounds.Defs
import SystemAtlas.Proofs.Model.Descent
import SystemAtlas.Proofs.View.Registration

/-! # Deployments with their hosts

A deployment of a system shows what the system needs in the environment and everything above that
(`mem_deployment_iff`), which is the least it can show if every element comes with its hosts
(`deployment_isLeast`). The elements of any deployment come with their hosts, because references
bring the hosts in and exclusions take everything below away (`Catalogue.hosted_of_elements`). -/

namespace SystemAtlas

open Model (Element ElementType Environment Graph)

namespace Model.Graph

variable {g : Graph} {e system : Element} {ids : Set Text} {x y : Text}

/-- With an element, ids include the elements above it. -/
def Hosted (g : Graph) (ids : Set Text) : Prop := ∀ x ∈ ids, ∀ a ∈ g.ancestors x, a.id ∈ ids

theorem Hosted.mem_of_within (h : g.Hosted ids) (hg : g.Forest) (hy : y ∈ ids)
    (hw : g.Within x y) : x ∈ ids := by
  rcases (within_iff_ancestor hg).mp hw with rfl | ⟨a, ha, rfl⟩
  · exact hy
  · exact h y hy a ha

/-- The elements above one, and at it, come with those above them. -/
theorem Forest.hosted_within (hg : g.Forest) (id : Text) : g.Hosted {x | g.Within x id} :=
  fun _ hx _ ha => (within_of_ancestor hg ha).trans hx

theorem WellTyped.parent_of_isA_softwareSystem (hg : g.WellTyped) (he : e ∈ g.elements)
    (h : e.isA .softwareSystem = true) : e.parent = none := by
  have hr := (Model.isA_static_iff (t := .softwareSystem) (by decide)).mp h
  cases hg.fits e he with
  | system _ hp | person _ hp | group _ hp | rootNode _ hp => exact hp
  | container hr' | component hr' | node hr' | infrastructure hr' | occurrence hr' =>
    cases hr.symm.trans hr'

/-- An element is part of one software system at most. -/
theorem WellTyped.eq_of_within_systems (hg : g.WellTyped) (hs : system ∈ g.elements)
    (hst : system.isA .softwareSystem = true) (he : e ∈ g.elements)
    (het : e.isA .softwareSystem = true) (h : g.Within system.id x) (h' : g.Within e.id x) :
    e = system :=
  hg.forest.eq_of_id he hs <|
    h'.eq_of_roots hg.forest he (hg.parent_of_isA_softwareSystem he het) hs
      (hg.parent_of_isA_softwareSystem hs hst) h

end Model.Graph

namespace Focus

variable {g : Graph} {system e : Element} {environment : Environment} {x : Text}

/-! ## What a system needs -/

/-- What a deployment of a system is for: the infrastructure nodes of an environment, and its
instances of the system or of something in it. -/
structure Needs (g : Graph) (system : Element) (environment : Environment) (e : Element) :
    Prop where
  mem : e ∈ g.elements
  environment : e.environment? = some environment.id
  needed : e.isA .infrastructureNode = true ∨
    ∃ d, e.definition? = some d ∧ g.Within system.id d

theorem isNeeded_iff (hg : g.Forest) : isNeeded g system e = true ↔
    e.isA .infrastructureNode = true ∨ ∃ d, e.definition? = some d ∧ g.Within system.id d := by
  rw [isNeeded, isInstanceOf, Bool.or_eq_true, Option.any_eq_true]
  refine or_congr_right (exists_congr fun d => and_congr_right fun _ => ?_)
  rw [Bool.or_eq_true, beq_iff_eq, eq_comm, Graph.within_iff_isAncestor hg]

theorem isInstance_of_definition {d : Text} (h : e.definition? = some d) :
    e.isInstance = true := by
  rw [Element.definition?] at h
  split at h
  · next t _ _ _ hr =>
    rw [Element.isInstance, Element.isA, Element.type, hr]
    cases t <;> rfl
  · cases h

/-- What a system needs is infrastructure or an instance, so it is no node and no group. -/
theorem Needs.isA_eq_false {t : ElementType} (h : Needs g system environment e)
    (ht : t = .deploymentNode ∨ t = .deploymentGroup) : e.isA t = false := by
  have htype : e.type = .infrastructureNode ∨ e.type.isInstance = true := by
    rcases h.needed with h | ⟨d, hd, -⟩
    · exact .inl (eq_of_beq h)
    · exact .inr (isInstance_of_definition hd)
  refine Bool.eq_false_iff.mpr fun h => ?_
  have hsame : e.type = t := by rcases ht with rfl | rfl <;> exact eq_of_beq h
  rw [hsame] at htype
  rcases ht with rfl | rfl <;> rcases htype with h | h <;> cases h

theorem Needs.admits (h : Needs g system environment e) :
    (deployment (some system) environment).admits e = true := by
  have hgroup : e.isGroup = false := h.isA_eq_false (.inr rfl)
  rw [Focus.admits, h.environment, hgroup, beq_self_eq_true]
  rfl

theorem Needs.definition (h : Needs g system environment e) (he : e.isInstance = true) :
    ∃ d, e.definition? = some d ∧ g.Within system.id d := by
  refine h.needed.resolve_left fun hinfrastructure => ?_
  rw [Element.isInstance, Element.isA, eq_of_beq hinfrastructure] at he
  cases he

theorem mem_needed_iff (hg : g.Forest) :
    e ∈ ((deployment (some system) environment).members g).filter (isNeeded g system) ↔
      Needs g system environment e := by
  rw [List.mem_filter, members, List.mem_filter, isNeeded_iff hg]
  constructor
  · rintro ⟨⟨hmem, hadmits⟩, hneeded⟩
    rw [admits, Bool.and_eq_true, beq_iff_eq] at hadmits
    exact ⟨hmem, hadmits.1, hneeded⟩
  · intro h
    exact ⟨⟨h.mem, h.admits⟩, h.needed⟩

/-! ## What a deployment of a system shows -/

/-- A deployment of a system shows what has in its subtree something that the system needs. -/
theorem mem_deployment_iff (hg : g.WellTyped) :
    x ∈ (deployment (some system) environment).shown g ↔
      ∃ leaf, Needs g system environment leaf ∧ g.Within x leaf.id := by
  simp only [shown, deployed, List.mem_map, List.mem_filter (p := fun e => _ || _), Bool.or_eq_true,
    List.contains_iff_mem, List.mem_flatMap, exists_exists_and_eq_and, mem_needed_iff hg.forest]
  constructor
  · rintro ⟨e, ⟨-, ⟨leaf, hleaf, hid⟩ | ⟨leaf, hleaf, a, ha, hid⟩⟩, rfl⟩
    · exact ⟨leaf, hleaf, hid ▸ .root⟩
    · exact ⟨leaf, hleaf, hid ▸ Graph.within_of_ancestor hg.forest ha⟩
  · rintro ⟨leaf, hleaf, hw⟩
    rcases (Graph.within_iff_ancestor hg.forest).mp hw with rfl | ⟨a, ha, rfl⟩
    · exact ⟨leaf, ⟨List.mem_filter.mpr ⟨hleaf.mem, hleaf.admits⟩, .inl ⟨leaf, hleaf, rfl⟩⟩, rfl⟩
    · obtain ⟨e, he, hadmits, hid⟩ := mem_reach_iff_exists.mp
        (mem_reach_of_ancestor hg rfl hleaf.mem hleaf.admits ha)
      exact ⟨e, ⟨List.mem_filter.mpr ⟨he, hadmits⟩, .inr ⟨leaf, hleaf, a, ha, hid.symm⟩⟩, hid⟩

/-- What a deployment of a system could show: elements of the environment that are no groups, with
all that the system needs and with their hosts. -/
structure Serves (g : Graph) (system : Element) (environment : Environment) (ids : Set Text) :
    Prop where
  lives : ∀ x ∈ ids, ∃ e ∈ g.elements, e.id = x ∧ e.environment? = some environment.id ∧
    e.isGroup = false
  needs : ∀ e, Needs g system environment e → e.id ∈ ids
  hosted : g.Hosted ids

theorem serves_deployment (hg : g.WellTyped) :
    Serves g system environment {x | x ∈ (deployment (some system) environment).shown g} := by
  refine ⟨fun x hx => ?_, fun e he => (mem_deployment_iff hg).mpr ⟨e, he, .root⟩,
    fun x hx a ha => ?_⟩
  · obtain ⟨e, he, rfl⟩ := List.mem_map.mp hx
    obtain ⟨hmem, hadmits⟩ := List.mem_filter.mp (List.mem_filter.mp he).1
    simp only [admits, Bool.and_eq_true, beq_iff_eq, Bool.not_eq_true'] at hadmits
    exact ⟨e, hmem, rfl, hadmits⟩
  · obtain ⟨leaf, hleaf, hw⟩ := (mem_deployment_iff hg).mp hx
    exact (mem_deployment_iff hg).mpr
      ⟨leaf, hleaf, (Graph.within_of_ancestor hg.forest ha).trans hw⟩

/-- By itself, a deployment shows elements with their hosts. -/
theorem hosted_shown (hg : g.WellTyped) {f : Focus} (hk : f.kind = .deployment) :
    g.Hosted {x | x ∈ f.shown g} := by
  cases f with
  | deployment subject environment =>
    cases subject with
    | none =>
      intro x hx a ha
      obtain ⟨e, he, hadmits, rfl⟩ := mem_reach_iff_exists.mp hx
      exact mem_reach_of_ancestor hg hk he hadmits ha
    | some system => exact (serves_deployment hg).hosted
  | _ => cases hk

/-- A deployment of a system shows no more than it has to. -/
theorem Serves.subset {ids : Set Text} (h : Serves g system environment ids) (hg : g.WellTyped)
    (hx : x ∈ (deployment (some system) environment).shown g) : x ∈ ids := by
  obtain ⟨leaf, hleaf, hw⟩ := (mem_deployment_iff hg).mp hx
  exact h.hosted.mem_of_within hg.forest (h.needs leaf hleaf) hw

/-- What a deployment of a system shows without the system needing it is a node above something
that the system needs. -/
theorem Needs.cases_of_within {n : Element} (h : Needs g system environment e) (hg : g.WellTyped)
    (hn : n ∈ g.elements) (hw : g.Within n.id e.id) :
    n = e ∨ n.isA .deploymentNode = true ∧ g.isAncestor n.id e.id = true := by
  rcases (Graph.within_iff_ancestor hg.forest).mp hw with hid | ⟨a, ha, hid⟩
  · exact .inl (hg.forest.eq_of_id hn h.mem hid)
  · obtain ⟨hmem, k, hr⟩ := hg.role_of_ancestor h.mem h.environment ha
    cases hg.forest.eq_of_id hmem hn hid
    refine .inr ⟨?_, List.any_eq_true.mpr ⟨_, ha, beq_self_eq_true _⟩⟩
    rw [Element.isA, Element.type, hr]
    rfl

/-- By itself, a deployment of a system shows the least set of elements of the environment, apart
from its groups, that includes what the system needs and comes with its hosts. They are listed in
the order of the model, each once. Every node among them hosts something that the system needs, and
every instance is one of the system or of something in it, and of no other system. -/
theorem deployment_isLeast {mode : Identifier.Mode} {members : List Declaration.ModelMember}
    {m : Model.Finished} (h : Model.assemble mode members = .ok m)
    (hs : system ∈ m.graph.elements) (ht : system.isA .softwareSystem = true)
    (environment : Environment) :
    let ids := (deployment (some system) environment).shown m.graph
    IsLeast {ids | Serves m.graph system environment ids} {x | x ∈ ids} ∧
      ids.Nodup ∧ ids.Sublist (m.graph.elements.map (·.id)) ∧
      (∀ n ∈ m.graph.elements, n.isA .deploymentNode = true → n.id ∈ ids →
        ∃ leaf, Needs m.graph system environment leaf ∧ m.graph.isAncestor n.id leaf.id = true) ∧
      (∀ i ∈ m.graph.elements, i.isInstance = true → i.id ∈ ids →
        ∃ d, i.definition? = some d ∧ m.graph.Within system.id d ∧
          ∀ other ∈ m.graph.elements, other.isA .softwareSystem = true →
            m.graph.Within other.id d → other = system) := by
  intro ids
  have hg := Model.wellTyped_of_assemble h
  have hsub : ids.Sublist (m.graph.elements.map (·.id)) :=
    (List.filter_sublist.trans List.filter_sublist).map _
  refine ⟨⟨serves_deployment hg, fun T hT x hx => hT.subset hg hx⟩,
    hg.forest.nodup.sublist hsub, hsub, fun n hn hnt hx => ?_, fun i hi hit hx => ?_⟩
  · obtain ⟨leaf, hleaf, hw⟩ := (mem_deployment_iff hg).mp hx
    rcases hleaf.cases_of_within hg hn hw with rfl | ⟨-, habove⟩
    · cases (hleaf.isA_eq_false (.inl rfl)).symm.trans hnt
    · exact ⟨leaf, hleaf, habove⟩
  · obtain ⟨leaf, hleaf, hw⟩ := (mem_deployment_iff hg).mp hx
    rcases hleaf.cases_of_within hg hi hw with rfl | ⟨hnode, -⟩
    · obtain ⟨d, hd, hwithin⟩ := hleaf.definition hit
      exact ⟨d, hd, hwithin, fun other ho hot hother =>
        hg.eq_of_within_systems hs ht ho hot hwithin hother⟩
    · rw [Element.isInstance, Element.isA, eq_of_beq hnode] at hit
      cases hit

end Focus

namespace Model

/-- Two systems deployed in one environment, next to some infrastructure. -/
def market : List Declaration.ModelMember :=
  let details (id : Text) : Declaration.Details :=
    { identifier := Identifier.LocalName.ofText? id, name := id }
  let container (id element : Text) : Declaration.NodeMember :=
    .occurrence { kind := .container, identifier := Identifier.LocalName.ofText? id, element }
  [.system (details "shop") [.container (details "web") []],
    .system (details "post") [.container (details "mail") []],
    .environment { identifier := Identifier.LocalName.ofText? "live", name := "Live" }
      [.node (details "hall") 1
        [.node (details "rack") 1 [container "web1" "web", .infrastructure (details "router")],
          .node (details "desk") 1 [container "mail1" "mail"]]]]

/-- The market, complete. -/
def marketModel : Finished := (assemble .flat market).toOption.getD default

/-- The element of the market with the given id. -/
def marketElement (id : Text) : Element := (marketModel.graph.find? id).getD default

end Model

namespace Focus

/-- What the market shows of the shop. -/
def marketShown : List Text := ["hall", "rack", "web1", "router"]

theorem market_deployment_least : Model.assemble .flat Model.market = .ok Model.marketModel ∧
    (deployment (some (Model.marketElement "shop")) ⟨"live", "Live"⟩).shown
      Model.marketModel.graph = marketShown ∧
    IsLeast
      {ids | Serves Model.marketModel.graph (Model.marketElement "shop") ⟨"live", "Live"⟩ ids}
      {x | x ∈ marketShown} := by
  have h : Model.assemble .flat Model.market = .ok Model.marketModel := by rfl
  have hshown : (deployment (some (Model.marketElement "shop")) ⟨"live", "Live"⟩).shown
      Model.marketModel.graph = marketShown := by decide +kernel
  have hs : Model.marketElement "shop" ∈ Model.marketModel.graph.elements := by decide +kernel
  have ht : (Model.marketElement "shop").isA .softwareSystem = true := by decide +kernel
  exact ⟨h, hshown, hshown ▸ (deployment_isLeast h hs ht ⟨"live", "Live"⟩).1⟩

end Focus

/-! ## Deployments of references -/

namespace Catalogue

variable {c : Catalogue} {f : Focus} {key reference : Text} {included excluded xs : List Text}

section
variable (hg : c.model.graph.WellTyped) (hk : f.kind = .deployment)
include hg hk

/-- What a reference brings into a deployment comes with its hosts. -/
theorem hosted_of_expand (h : c.expand f key reference = .ok xs) :
    c.model.graph.Hosted {x | x ∈ xs} := by
  rw [expand] at h
  split at h
  · cases Except.ok.inj h
    exact Focus.hosted_shown hg hk
  · obtain ⟨e, -, h⟩ := bind_eq_ok_iff.mp h
    cases Except.ok.inj h
    -- what is brought in is the lineage of the element
    have hmem : ∀ {x : Text}, x ∈ (c.model.graph.ancestors e.id).reverse.map (·.id) ++ [e.id] ↔
        c.model.graph.Within x e.id := by
      intro x
      rw [Graph.within_iff_ancestor hg.forest, List.mem_append, List.map_reverse,
        List.mem_reverse, List.mem_singleton, List.mem_map, or_comm]
    intro x hx a ha
    exact hmem.mpr (hg.forest.hosted_within e.id x (hmem.mp hx) a ha)

/-- A reference keeps an element and everything below it out of a deployment. -/
theorem within_of_exclude (h : c.exclude f key reference = .ok xs) :
    ∃ e, c.reachable f key reference = .ok e ∧ ∀ x, x ∈ xs ↔ c.model.graph.Within e.id x := by
  obtain ⟨e, he, h⟩ := bind_eq_ok_iff.mp h
  rw [if_pos hk] at h
  cases Except.ok.inj h
  exact ⟨e, he, fun x => Graph.mem_cons_descendants_iff hg.forest⟩

/-- The elements of a deployment come with their hosts, and nothing in it is at or below an element
that is excluded. -/
theorem hosted_of_elements (h : c.elements f key included excluded = .ok xs) :
    c.model.graph.Hosted {x | x ∈ xs} ∧ ∀ reference ∈ excluded,
      ∃ e, c.reachable f key reference = .ok e ∧ ∀ x ∈ xs, ¬ c.model.graph.Within e.id x := by
  refine ⟨fun x hx a ha => ?_, fun reference hr => ?_⟩
  · obtain ⟨⟨reference, hr, ys, hys, hx⟩, hkept⟩ := (mem_iff_of_elements h).mp hx
    refine (mem_iff_of_elements h).mpr
      ⟨⟨reference, hr, ys, hys, hosted_of_expand hg hk hys x hx a ha⟩, ?_⟩
    -- what takes the host away takes the element away
    intro reference hr ys hys ha'
    obtain ⟨e, -, he⟩ := within_of_exclude hg hk hys
    have hwithin := ((he a.id).mp ha').trans (Graph.within_of_ancestor hg.forest ha)
    exact hkept reference hr ys hys ((he x).mpr hwithin)
  · obtain ⟨ys, hys⟩ := (exists_elements_iff.mp ⟨xs, h⟩).2 reference hr
    obtain ⟨e, hreachable, he⟩ := within_of_exclude hg hk hys
    refine ⟨e, hreachable, fun x hx hwithin => ?_⟩
    exact ((mem_iff_of_elements h).mp hx).2 reference hr ys hys ((he x).mpr hwithin)

end

end Catalogue

end SystemAtlas
