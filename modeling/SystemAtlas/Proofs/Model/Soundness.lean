import SystemAtlas.Proofs.Model.Declaring
import SystemAtlas.Proofs.Model.Traffic

/-! # Soundness of a model

What holds of the graph of every complete model (`sound_of_assemble`). Its elements and environments
are as declaring leaves them. Its relationships join elements, and none of them a group: linking
finds such ends, implying only goes up to what is static, and copying goes from instance to
instance. -/

namespace SystemAtlas.Model

namespace Graph

variable {g g' : Graph} {e : Element} {r : Relationship} {id : Text} {kind : Relationship → Prop}
  {pairs : Text → Text → Prop}

/-- Relationships lead from and to elements that are no groups. -/
def Joined (g : Graph) : Prop := ∀ r ∈ g.relationships, g.IsEnd r.source ∧ g.IsEnd r.destination

theorem Joined.appended (hg : g.Joined) (hr : g.IsEnd r.source ∧ g.IsEnd r.destination) :
    (g.appended [r]).Joined := by
  intro x hx
  rcases List.mem_append.mp hx with hx | hx
  · exact hg x hx
  · rw [List.mem_singleton.mp hx]
    exact hr

/-- A pass that adds pairs of ends keeps a graph joined. -/
theorem Adds.joined (h : Adds g kind pairs g') (hg : g.Joined)
    (hpairs : ∀ s d, pairs s d → g.IsEnd s ∧ g.IsEnd d) : g'.Joined := by
  intro r hr
  have hsub : g.elements ⊆ g'.elements := h.elements_eq ▸ List.Subset.refl _
  have hends : g.IsEnd r.source ∧ g.IsEnd r.destination := by
    rcases (h.connects _ _).mp (connects_iff.mpr ⟨r, hr, rfl, rfl⟩) with hc | hp
    · obtain ⟨x, hx, hs, hd⟩ := connects_iff.mp hc
      exact hs ▸ hd ▸ hg x hx
    · exact hpairs _ _ hp
  exact ⟨hends.1.mono hsub, hends.2.mono hsub⟩

theorem isEnd_of_isStatic (h : g.isStatic id = true) : g.IsEnd id := by
  rw [isStatic, Option.any_eq_true] at h
  obtain ⟨e, hfind, he⟩ := h
  obtain ⟨hmem, hid⟩ := mem_of_find? hfind
  refine ⟨e, hmem, hid, ?_⟩
  rw [← Bool.not_eq_true, isGroup_iff]
  rintro ⟨v, hr⟩
  rw [Element.isStatic, hr] at he
  cases he

theorem isEnd_of_definition (he : e ∈ g.elements) (h : e.definition? = some id) :
    g.IsEnd e.id := by
  refine ⟨e, he, rfl, ?_⟩
  rw [← Bool.not_eq_true, isGroup_iff]
  rintro ⟨v, hr⟩
  rw [Element.definition?, hr] at h
  cases h

theorem Joined.withImplied (hg : g.Joined) (ht : g.WellTyped) (h : g.withImplied = .ok g') :
    g'.Joined := by
  refine (withImplied_adds h).joined hg ?_
  rintro s d ⟨r, -, hi, hp⟩
  obtain ⟨hs, hd, -, -⟩ := (mem_impliedPairs_iff ht.forest).mp hp
  simp only [isImplying, Bool.and_eq_true] at hi
  exact ⟨isEnd_of_isStatic ((ht.isStatic_of_within hs).trans hi.1.2),
    isEnd_of_isStatic ((ht.isStatic_of_within hd).trans hi.2)⟩

theorem Joined.withInstanceRelationships (hg : g.Joined)
    (h : g.withInstanceRelationships = .ok g') : g'.Joined := by
  refine (withInstanceRelationships_adds h).joined hg ?_
  rintro s d ⟨r, -, -, -, hp⟩
  obtain ⟨x, hx, y, hy, -, rfl, rfl⟩ := mem_instancePairs_iff.mp hp
  obtain ⟨hx, hxd⟩ := mem_instancesOf_iff.mp hx
  obtain ⟨hy, hyd⟩ := mem_instancesOf_iff.mp hy
  exact ⟨isEnd_of_definition hx hxd, isEnd_of_definition hy hyd⟩

/-- What holds of the graph of every complete model. -/
structure Sound (g : Graph) : Prop where
  ordered : g.Ordered
  counted : g.Counted
  situated : g.Situated
  joined : g.Joined
  distinct : (g.elements.map (·.id) ++ g.environments.map (·.id)).Nodup
  apart : ∀ r ∈ g.relationships, ∀ v ∈ g.environments, r.source ≠ v.id ∧ r.destination ≠ v.id

/-- No end of a relationship is an environment if ids differ. -/
theorem Joined.apart (hg : g.Joined)
    (hd : (g.elements.map (·.id) ++ g.environments.map (·.id)).Nodup) :
    ∀ r ∈ g.relationships, ∀ v ∈ g.environments, r.source ≠ v.id ∧ r.destination ≠ v.id := by
  have hend : ∀ id, g.IsEnd id → ∀ v ∈ g.environments, id ≠ v.id := by
    rintro _ ⟨e, he, rfl, -⟩ v hv
    exact (List.nodup_append.mp hd).2.2 _ (List.mem_map_of_mem he) _ (List.mem_map_of_mem hv)
  exact fun r hr v hv => ⟨hend _ (hg r hr).1 v hv, hend _ (hg r hr).2 v hv⟩

end Graph

namespace Assembly

variable {a a' : Assembly} {p : Pending} {reference id : Text}

theorem isEnd_of_endpoint (ho : ∀ id, p.owner = some id → a.graph.IsEnd id)
    (h : a.endpoint p reference = .ok id) : a.graph.IsEnd id := by
  obtain ⟨-, howner⟩ | ⟨-, -, ⟨e, hfind, hgroup⟩, -⟩ := endpoint_eq_ok_iff.mp h
  · exact ho id howner
  · obtain ⟨he, hid⟩ := Graph.mem_of_find? hfind
    exact ⟨e, he, hid, hgroup⟩

/-- Linking what is put aside in such blocks joins the elements of the graph. -/
theorem Kept.joined_of_link (ha : a.Kept) (hnone : a.graph.relationships = [])
    (h : a.pending.foldlM link a = .ok a') : a'.graph.Joined := by
  have hrun : a'.graph.elements = a.graph.elements ∧ a'.graph.Joined := by
    refine foldlM_invariant (P := fun b => b.graph.elements = a.graph.elements ∧ b.graph.Joined)
      ?_ ⟨rfl, fun r hr => absurd (hnone ▸ hr) List.not_mem_nil⟩ h
    rintro b p b' hp ⟨helements, hb⟩ hstep
    obtain ⟨l, hl, g, hg, rfl⟩ := link_eq_ok_iff.mp hstep
    obtain ⟨s, hs, d, hd, rfl⟩ := resolveLink_eq_ok_iff.mp hl
    obtain ⟨-, -, -, -, rfl⟩ := Graph.addRelationship_eq_ok_iff.mp hg
    have howner : ∀ id, p.owner = some id → b.graph.IsEnd id :=
      fun id hid => (ha.owners p hp id hid).mono (helements ▸ List.Subset.refl _)
    exact ⟨helements, hb.appended ⟨isEnd_of_endpoint howner hs, isEnd_of_endpoint howner hd⟩⟩
  exact hrun.2

/-- Finishing keeps a typed graph joined. -/
theorem joined_of_finish {f : Finished} (ha : a.graph.Joined) (ht : a.graph.WellTyped)
    (h : a.finish = .ok f) : f.graph.Joined := by
  obtain ⟨g, hg, g', hg', rfl⟩ := finish_eq_ok_iff.mp h
  have hjoined : g'.Joined := (ha.withImplied ht hg).withInstanceRelationships hg'
  exact hjoined

end Assembly

variable {mode : Identifier.Mode} {members : List Declaration.ModelMember} {f : Finished}

/-- A complete model has the elements and environments that are declared, and its relationships join
elements. -/
theorem declared_of_assemble (h : assemble mode members = .ok f) : f.graph.Joined ∧
    ∃ b : Assembly, b.Kept ∧ b.Registered ∧ f.graph.elements = b.graph.elements ∧
      f.graph.environments = b.graph.environments := by
  obtain ⟨a, ha, hf⟩ := assemble_eq_ok_iff.mp h
  obtain ⟨b, hb, hlink⟩ := linked_eq_ok_iff.mp ha
  have hkept := (Assembly.Kept.initial mode).run (.initial mode) (nested_script members) hb
  have hregistered := (Assembly.Registered.initial mode).run hb
  have hlinked := hkept.joined_of_link (Assembly.relationships_of_declared hb) hlink
  have hjoined := Assembly.joined_of_finish hlinked (linked_spec ha).1 hf
  obtain ⟨rs, rfl, -⟩ := Assembly.appended_of_link hlink
  exact ⟨hjoined, b, hkept, hregistered, (Assembly.elements_of_finish hf).trans rfl,
    (Assembly.environments_of_finish hf).trans rfl⟩

theorem Assembly.Kept.ordered_of_elements_eq {b : Assembly} {g : Graph} (hb : b.Kept)
    (h : g.elements = b.graph.elements) : g.Ordered := by
  rw [Graph.Ordered, h]
  exact hb.ordered

theorem Assembly.Kept.situated_of_elements_eq {b : Assembly} {g : Graph} (hb : b.Kept)
    (h : g.elements = b.graph.elements) (hv : g.environments = b.graph.environments) :
    g.Situated := by
  simp only [Graph.Situated, Graph.IsEnvironment, h, hv]
  exact hb.situated

/-- The graph of a complete model is sound. Every element has the parent that its role asks for and,
if it is an instance, a definition of its type and groups of its environment, all of them inserted
before it. The instances of a definition in an environment are numbered from one on, an environment
that an element is in is there, and the ends of relationships are elements, but no groups, and no
environments. -/
theorem sound_of_assemble (h : assemble mode members = .ok f) : f.graph.Sound := by
  obtain ⟨hjoined, b, hkept, hregistered, helements, henvironments⟩ := declared_of_assemble h
  have hdistinct : (f.graph.elements.map (·.id) ++ f.graph.environments.map (·.id)).Nodup := by
    rw [helements, henvironments, hregistered.ids.nodup_iff]
    exact hregistered.nodup
  refine ⟨hkept.ordered_of_elements_eq helements, ?_,
    hkept.situated_of_elements_eq helements henvironments, hjoined, hdistinct,
    hjoined.apart hdistinct⟩
  simp only [Graph.Counted, Graph.instancesIn, Graph.instancesOf, helements]
  exact hkept.counted

theorem shop_sound : assemble .flat shop = .ok shopModel ∧ shopModel.graph.Sound := by
  have h : assemble .flat shop = .ok shopModel := by rfl
  exact ⟨h, sound_of_assemble h⟩

end SystemAtlas.Model
